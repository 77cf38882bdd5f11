import PatternSyntax.Proofs.Elements
import PatternSyntax.Proofs.Neatness

/-!
What a neat outline makes of the tokens of a text.
-/

namespace PatternSyntax.Proofs.NeatTrees

open PatternSyntax.Proofs.Coverage
open PatternSyntax.Proofs.Elements
open PatternSyntax.Proofs.Lossless
open PatternSyntax.Proofs.Neatness
open PatternSyntax.Proofs.Weave

/-- The tokens of a row of elements that are not inside of its nodes. -/
def leafKinds : List Tree → List TokenKind
  | [] => []
  | .leaf kind _ :: rest => kind :: leafKinds rest
  | .node _ _ :: rest => leafKinds rest

mutual

/-- The tokens of an element that are not inside of a block. -/
def exposed : Tree → List TokenKind
  | .leaf kind _ => [kind]
  | .node kind children => if kind = .node .codeBlock then [] else exposedAll children

/-- The tokens of a row of elements that are not inside of a block. -/
def exposedAll : List Tree → List TokenKind
  | [] => []
  | tree :: rest => exposed tree ++ exposedAll rest

end

theorem leafKinds_append (front back : List Tree) :
    leafKinds (front ++ back) = leafKinds front ++ leafKinds back := by
  induction front with
  | nil => rfl
  | cons tree front ih =>
      cases tree with
      | leaf kind text => rw [List.cons_append, leafKinds, leafKinds, ih, List.cons_append]
      | node kind children => rw [List.cons_append, leafKinds, leafKinds, ih]

theorem isBracket_of_isTrivia {kind : TokenKind} (h : kind.isTrivia = true) :
    isBracket kind = false := by
  cases kind
  all_goals first
    | rfl
    | cases h

theorem filter_isBracket_leaves {tokens : List Token}
    (htrivia : ∀ token ∈ tokens, token.kind.isTrivia = true) :
    (leafKinds (tokens.map leafOf)).filter isBracket = [] := by
  induction tokens with
  | nil => rfl
  | cons token tokens ih =>
      rw [List.forall_mem_cons] at htrivia
      rw [List.map_cons, leafOf, leafKinds, List.filter_cons, isBracket_of_isTrivia htrivia.1]
      exact ih htrivia.2

theorem brackets_of_weaves {i j : Nat} {tokens rest : List Token} {parts : List Outline}
    {trees : List Tree} (h : Weaves i tokens parts trees j rest) :
    (leafKinds trees).filter isBracket = brackets parts := by
  induction h with
  | nil => rfl
  | trivia htrivia _ _ ih =>
      rw [leafOf, leafKinds, List.filter_cons, isBracket_of_isTrivia htrivia]
      exact ih
  | token _ _ ih =>
      rw [leafOf, leafKinds, brackets_token, ← ih, List.filter_cons, bracketOf]
      split
      · rfl
      · rfl
  | error _ _ ih => exact ih
  | node _ _ _ _ _ ih => exact ih
  | around _ _ _ _ _ _ _ _ ih => exact ih
  | loose _ _ ihInner ih =>
      rw [leafKinds_append, List.filter_append, ihInner, ih, brackets_loose]

theorem plain_of_isTrivia {kind : TokenKind} (h : kind.isTrivia = true) : Plain kind := by
  refine ⟨?_, ?_, ?_⟩
  all_goals
    rintro rfl
    cases h

theorem exposedAll_append (front back : List Tree) :
    exposedAll (front ++ back) = exposedAll front ++ exposedAll back := by
  induction front with
  | nil => rfl
  | cons tree front ih => rw [List.cons_append, exposedAll, exposedAll, ih, List.append_assoc]

theorem plain_of_mem_exposedAll_leaves {tokens : List Token} {kind : TokenKind}
    (htrivia : ∀ token ∈ tokens, token.kind.isTrivia = true)
    (hmem : kind ∈ exposedAll (tokens.map leafOf)) : Plain kind := by
  induction tokens with
  | nil => simp [exposedAll] at hmem
  | cons token tokens ih =>
      rw [List.forall_mem_cons] at htrivia
      rcases List.mem_cons.1 hmem with rfl | hmem
      · exact plain_of_isTrivia htrivia.1
      · exact ih htrivia.2 hmem

theorem plain_of_mem_exposedAll {i j : Nat} {tokens rest : List Token} {parts : List Outline}
    {trees : List Tree} {kind : TokenKind} (h : Weaves i tokens parts trees j rest)
    (hneat : Neat parts) (hmem : kind ∈ exposedAll trees) : Plain kind := by
  induction h with
  | nil => simp [exposedAll] at hmem
  | trivia htrivia _ _ ih =>
      rcases List.mem_cons.1 hmem with rfl | hmem
      · exact plain_of_isTrivia htrivia
      · exact ih hneat hmem
  | token _ _ ih =>
      rcases List.mem_cons.1 hmem with rfl | hmem
      · exact hneat.1
      · exact ih hneat.2 hmem
  | error => exact absurd hneat.1 id
  | node _ _ _ _ ihInner ih =>
      obtain ⟨hnode, hlater⟩ := hneat
      rcases List.mem_append.1 hmem with hmem | hmem
      · rw [exposed] at hmem
        rw [NeatOne] at hnode
        split at hmem
        · simp at hmem
        · rename_i hkind
          rw [if_neg fun heq => hkind (congrArg SyntaxKind.node heq)] at hnode
          exact ihInner hnode.2 hmem
      · exact ih hlater hmem
  | around _ hkind _ _ _ _ ihFirst ihInner ih =>
      obtain ⟨⟨-, hfirst, hinner⟩, hlater⟩ := hneat
      rcases List.mem_append.1 hmem with hmem | hmem
      · rw [exposed, if_neg fun heq => hkind (SyntaxKind.node.inj heq)] at hmem
        rcases List.mem_append.1 hmem with hmem | hmem
        · exact ihFirst ⟨hfirst, trivial⟩ (List.mem_append_left _ hmem)
        · exact ihInner hinner hmem
      · exact ih hlater hmem
  | loose _ _ ihInner ih =>
      rw [exposedAll_append] at hmem
      rcases List.mem_append.1 hmem with hmem | hmem
      · exact ihInner hneat.1 hmem
      · exact ih hneat.2 hmem

theorem getLast?_of_closes {depth : Nat} {kinds : List TokenKind} (h : closes depth kinds = true) :
    kinds.getLast? = some .closeBrace := by
  fun_induction closes depth kinds with
  | case1 => cases h
  | case2 rest => rw [List.isEmpty_iff.1 h]; rfl
  | case3 depth rest ih => rw [List.getLast?_cons, ih h]; rfl
  | case4 depth rest ih => rw [List.getLast?_cons, ih h]; rfl
  | case5 depth kind rest _ _ _ ih => rw [List.getLast?_cons, ih h]; rfl

theorem tokensAll_map_token (kinds : List TokenKind) :
    Outline.tokensAll (kinds.map Outline.token) = kinds := by
  induction kinds with
  | nil => rfl
  | cons kind kinds ih => rw [List.map_cons, Outline.tokensAll, ih]; rfl

mutual

/-- The last token of a neat outline could be read, since a block ends with its brace. -/
theorem plain_of_mem_getLast? {kind : TokenKind} (outline : Outline) (hneat : NeatOne outline)
    (hmem : kind ∈ outline.tokens.getLast?) : Plain kind := by
  cases outline with
  | token kind =>
      cases hmem
      exact hneat
  | error kind index => cases hmem
  | node node parts =>
      rw [NeatOne] at hneat
      split at hneat
      · obtain ⟨kinds, rfl, hcloses⟩ := hneat
        rw [Outline.tokens, tokensAll_map_token, List.getLast?_cons,
          getLast?_of_closes hcloses] at hmem
        cases hmem
        decide
      · exact plain_of_mem_getLast?_all parts hneat.2 hmem
  | around node first later =>
      rw [Outline.tokens, List.getLast?_append, Option.mem_def, Option.or_eq_some_iff] at hmem
      rcases hmem with hmem | ⟨-, hmem⟩
      · exact plain_of_mem_getLast?_all later hneat.2.2 hmem
      · exact plain_of_mem_getLast? first hneat.2.1 hmem
  | loose parts => exact plain_of_mem_getLast?_all parts hneat hmem

theorem plain_of_mem_getLast?_all {kind : TokenKind} (parts : List Outline) (hneat : Neat parts)
    (hmem : kind ∈ (Outline.tokensAll parts).getLast?) : Plain kind := by
  cases parts with
  | nil => cases hmem
  | cons part rest =>
      rw [Outline.tokensAll, List.getLast?_append, Option.mem_def, Option.or_eq_some_iff] at hmem
      rcases hmem with hmem | ⟨-, hmem⟩
      · exact plain_of_mem_getLast?_all rest hneat.2 hmem
      · exact plain_of_mem_getLast? part hneat.1 hmem

end

/-- What a node without errors may hold. -/
def Suits (kind : NodeKind) (row : List Outline) : Prop :=
  if kind = .codeBlock then IsBlock row else Fitting kind row

theorem rowsAll_map_token (kinds : List TokenKind) :
    rowsAll (kinds.map Outline.token) = [] := by
  induction kinds with
  | nil => rfl
  | cons kind kinds ih => rw [List.map_cons, rowsAll, ih]; rfl

mutual

theorem suits_of_mem_rows {node : NodeKind} {row : List Outline} (outline : Outline)
    (hneat : NeatOne outline) (hmem : (node, row) ∈ rows outline) : Suits node row := by
  cases outline with
  | token kind => cases hmem
  | error kind index => cases hneat
  | node kind parts =>
      rw [NeatOne] at hneat
      rcases List.mem_cons.1 hmem with heq | hmem
      · cases heq
        unfold Suits
        split
        · rwa [if_pos ‹_›] at hneat
        · rw [if_neg ‹_›] at hneat
          exact hneat.1
      · split at hneat
        · obtain ⟨kinds, rfl, -⟩ := hneat
          rw [rowsAll_map_token] at hmem
          cases hmem
        · exact suits_of_mem_rowsAll parts hneat.2 hmem
  | around kind first later =>
      obtain ⟨⟨hkind, hfitting⟩, hfirst, hlater⟩ := hneat
      rcases List.mem_cons.1 hmem with heq | hmem
      · cases heq
        rwa [Suits, if_neg hkind]
      · rcases List.mem_append.1 hmem with hmem | hmem
        · exact suits_of_mem_rows first hfirst hmem
        · exact suits_of_mem_rowsAll later hlater hmem
  | loose parts => exact suits_of_mem_rowsAll parts hneat hmem

theorem suits_of_mem_rowsAll {node : NodeKind} {row : List Outline} (parts : List Outline)
    (hneat : Neat parts) (hmem : (node, row) ∈ rowsAll parts) : Suits node row := by
  cases parts with
  | nil => cases hmem
  | cons part rest =>
      rcases List.mem_append.1 hmem with hmem | hmem
      · exact suits_of_mem_rows part hneat.1 hmem
      · exact suits_of_mem_rowsAll rest hneat.2 hmem

end

theorem eq_nil_of_weaves_nil {i j : Nat} {tokens rest : List Token} {trees : List Tree}
    (h : Weaves i tokens [] trees j rest) : trees = [] := by
  generalize hparts : ([] : List Outline) = parts at h
  induction h with
  | nil => rfl
  | trivia _ htrees _ ih => exact absurd (ih hparts) htrees
  | token => cases hparts
  | error => cases hparts
  | node => cases hparts
  | around => cases hparts
  | loose => cases hparts

theorem token_of_weaves {i j : Nat} {tokens rest : List Token} {kind : TokenKind}
    {trees : List Tree} (h : Weaves i tokens [.token kind] trees j rest) :
    ∃ front text, trees = front ++ [.leaf kind text] := by
  generalize hrow : [Outline.token kind] = row at h
  induction h with
  | nil => cases hrow
  | trivia _ _ _ ih =>
      obtain ⟨front, text, rfl⟩ := ih hrow
      exact ⟨_ :: front, text, rfl⟩
  | token _ hlater =>
      cases hrow
      exact ⟨[], _, by rw [eq_nil_of_weaves_nil hlater]; rfl⟩
  | error => cases hrow
  | node => cases hrow
  | around => cases hrow
  | loose => cases hrow

theorem ends_of_weaves {i j : Nat} {tokens rest : List Token} {opening closing : TokenKind}
    {parts : List Outline} {trees : List Tree} (hne : opening ≠ closing)
    (hat : AtSignificant tokens)
    (h : Weaves i tokens (.token opening :: (parts ++ [.token closing])) trees j rest) :
    ∃ first inner last, trees = .leaf opening first :: (inner ++ [.leaf closing last]) := by
  obtain ⟨first, later, hfirst⟩ := h.head_token hat
  have hrow : Weaves i tokens ((.token opening :: parts) ++ [.token closing]) trees j rest := h
  obtain ⟨front, back, _, _, rfl, -, hlast⟩ := hrow.split
  obtain ⟨between, last, rfl⟩ := token_of_weaves hlast
  rw [← List.append_assoc] at hfirst ⊢
  rcases List.cons_eq_append_iff.1 hfirst.symm with ⟨-, heq⟩ | ⟨inner, heq, -⟩
  · cases heq
    exact absurd rfl hne
  · exact ⟨first, inner, last, by rw [heq]; rfl⟩

/-- The significant leaves of a row of elements are the tokens of the row of outlines. -/
theorem tokensAll_of_weaves {i j : Nat} {tokens rest : List Token} {parts : List Outline}
    {trees : List Tree} (h : Weaves i tokens parts trees j rest) :
    ((Tree.forestLeaves trees).map (·.1)).filter (fun kind => !kind.isTrivia) =
      Outline.tokensAll parts := by
  induction h with
  | nil => rfl
  | trivia htrivia _ _ ih =>
      simpa [leafOf, Tree.forestLeaves, Tree.leaves, htrivia] using ih
  | token htrivia _ ih =>
      simpa [leafOf, Tree.forestLeaves, Tree.leaves, htrivia, Outline.tokensAll,
        Outline.tokens] using ih
  | error _ _ ih => exact ih
  | node _ _ _ _ ihInner ih =>
      rw [Tree.forestLeaves, Tree.leaves, List.map_append, List.filter_append, ihInner, ih]
      rfl
  | around _ _ _ _ _ _ ihFirst ihInner ih =>
      rw [Outline.tokensAll, Outline.tokens, ← ihInner, ← ih,
        show Outline.tokens _ = _ from (List.append_nil _).symm.trans ihFirst.symm]
      simp [Tree.forestLeaves, Tree.leaves]
  | loose _ _ ihInner ih =>
      rw [forestLeaves_append, List.map_append, List.filter_append, ihInner, ih]
      rfl

theorem single_of_weaves {i j : Nat} {tokens rest : List Token} {outline : Outline}
    {trees : List Tree}
    (hnode : IsNode outline ∨ ∃ inner, outline = .loose [inner] ∧ IsNode inner)
    (h : Weaves i tokens [outline] trees j rest) :
    ∃ (blanks later : List Token) (kind : NodeKind) (children : List Tree),
      tokens = blanks ++ later ∧ (∀ token ∈ blanks, token.kind.isTrivia = true) ∧
      AtSignificant later ∧ trees = blanks.map leafOf ++ [.node (.node kind) children] ∧
      Weaves i later [outline] [.node (.node kind) children] j rest := by
  generalize hrow : [outline] = row at h
  induction h generalizing outline with
  | nil => cases hrow
  | @trivia _ _ token _ _ _ _ htrivia _ _ ih =>
      obtain ⟨blanks, later, kind, children, rfl, hblanks, hat, rfl, hlater⟩ := ih hnode hrow
      exact ⟨token :: blanks, later, kind, children, rfl,
        List.forall_mem_cons.2 ⟨htrivia, hblanks⟩, hat, rfl, hlater⟩
  -- A token or an error is no node.
  | token =>
      cases hrow
      rcases hnode with hnode | ⟨_, heq, -⟩
      · cases hnode
      · cases heq
  | error =>
      cases hrow
      rcases hnode with hnode | ⟨_, heq, -⟩
      · cases hnode
      · cases heq
  | node hat hfits hinner hlater =>
      cases hrow
      obtain rfl := eq_nil_of_weaves_nil hlater
      exact ⟨[], _, _, _, rfl, nofun, hat, rfl, .node hat hfits hinner hlater⟩
  | around hat hkind hfirst hhead hinner hlater =>
      cases hrow
      obtain rfl := eq_nil_of_weaves_nil hlater
      exact ⟨[], _, _, _, rfl, nofun, hat, rfl, .around hat hkind hfirst hhead hinner hlater⟩
  | loose _ hlater ihInner =>
      cases hrow
      obtain rfl := eq_nil_of_weaves_nil hlater
      rcases hnode with hnode | ⟨inner, heq, hnode⟩
      · cases hnode
      · cases heq
        obtain ⟨blanks, later, kind, children, rfl, hblanks, hat, rfl, hmade⟩ :=
          ihInner (.inl hnode) rfl
        exact ⟨blanks, later, kind, children, rfl, hblanks, hat, List.append_nil _,
          .loose hmade hlater⟩

end PatternSyntax.Proofs.NeatTrees
