import PatternSyntax.Proofs.CleanDocument
import PatternSyntax.Proofs.NeatTrees
import PatternSyntax.Proofs.Scanning

/-!
A text without errors makes a complete tree: one node for all of the text, in which every bracket is
closed where it was opened.
-/

namespace PatternSyntax.Proofs.Complete

open PatternSyntax.Proofs.CleanDocument
open PatternSyntax.Proofs.Elements
open PatternSyntax.Proofs.Lossless
open PatternSyntax.Proofs.NeatTrees
open PatternSyntax.Proofs.Neatness
open PatternSyntax.Proofs.Scanning
open PatternSyntax.Proofs.Weave

/-- Counting braces, the first one is closed by the last token, and not before. -/
def Enclosed (kinds : List TokenKind) : Prop :=
  kinds.count .openBrace = kinds.count .closeBrace ∧
    ∀ front back, kinds = front ++ back → front ≠ [] → back ≠ [] →
      front.count .closeBrace < front.count .openBrace

/-- The tree of a text in which nothing is missing. -/
structure IsComplete (tokens : List Token) (tree : Tree) : Prop where
  /-- Between blanks and comments there is one node, which holds all significant tokens. -/
  single : ∃ (before : List Token) (kind : NodeKind) (children : List Tree) (behind : List Token),
    tree = .node (.node .root)
      (before.map leafOf ++ .node (.node kind) children :: behind.map leafOf) ∧
    (∀ token ∈ before ++ behind, token.kind.isTrivia = true) ∧
    (Tree.forestLeaves children).filter (fun leaf => !leaf.1.isTrivia) =
      (Token.significant tokens).map fun token => (token.kind, token.text)
  errorless : ∀ children, .node (.node .error) children ∉ subtrees tree
  /-- Text that could not be read is only in blocks. -/
  readable : ∀ kind ∈ exposed tree, kind ≠ .unknown ∧ kind ≠ .unterminatedLiteral
  terminated : ∀ leaf ∈ tree.leaves, leaf.1 ≠ .unterminatedBlockComment
  brackets : ∀ kind children, .node kind children ∈ subtrees tree → kind ≠ .node .codeBlock →
    paired ((leafKinds children).filter isBracket) = true
  typeArguments : ∀ children, .node (.node .referenceParameterList) children ∈ subtrees tree →
    ∃ first inner last, children = .leaf .lt first :: (inner ++ [.leaf .gt last])
  blocks : ∀ children, .node (.node .codeBlock) children ∈ subtrees tree →
    (∃ first inner last, children = .leaf .openBrace first :: (inner ++ [.leaf .closeBrace last])) ∧
      Enclosed ((Tree.forestLeaves children).map (·.1))

theorem forall_prefix_cons {kind : TokenKind} {kinds : List TokenKind}
    {P : List TokenKind → Prop} (hnil : P [])
    (hcons : ∀ front back, kinds = front ++ back → back ≠ [] → P (kind :: front)) :
    ∀ front back, kind :: kinds = front ++ back → back ≠ [] → P front := by
  intro front back heq hback
  rcases List.cons_eq_append_iff.1 heq with ⟨rfl, -⟩ | ⟨front, rfl, hrest⟩
  · exact hnil
  · exact hcons front back hrest hback

theorem count_of_closes {depth : Nat} {kinds : List TokenKind} (h : closes depth kinds = true) :
    kinds.count .closeBrace = kinds.count .openBrace + depth + 1 ∧
      ∀ front back, kinds = front ++ back → back ≠ [] →
        front.count .closeBrace ≤ front.count .openBrace + depth := by
  fun_induction closes depth kinds with
  | case1 => cases h
  | case2 rest =>
      rw [List.isEmpty_iff.1 h]
      refine ⟨rfl, forall_prefix_cons (by simp) fun front back heq hback => ?_⟩
      exact absurd (List.append_eq_nil_iff.1 heq.symm).2 hback
  | case3 depth rest ih | case4 depth rest ih =>
      obtain ⟨hcount, hprefix⟩ := ih h
      rw [List.count_cons_self, List.count_cons_of_ne (by decide)]
      refine ⟨by omega, forall_prefix_cons (by simp) fun front back heq hback => ?_⟩
      have := hprefix front back heq hback
      rw [List.count_cons_self, List.count_cons_of_ne (by decide)]
      omega
  | case5 depth kind rest hzero hsucc hopen ih =>
      obtain ⟨hcount, hprefix⟩ := ih h
      have hclose : kind ≠ .closeBrace := by
        cases depth with
        | zero => exact fun heq => hzero rfl heq
        | succ depth => exact fun heq => hsucc depth rfl heq
      rw [List.count_cons_of_ne hclose, List.count_cons_of_ne hopen]
      refine ⟨hcount, forall_prefix_cons (by simp) fun front back heq hback => ?_⟩
      rw [List.count_cons_of_ne hclose, List.count_cons_of_ne hopen]
      exact hprefix front back heq hback

theorem enclosed_of_closes {kinds : List TokenKind} (h : closes 0 kinds = true) :
    Enclosed (.openBrace :: kinds) := by
  obtain ⟨hcount, hprefix⟩ := count_of_closes h
  constructor
  · rw [List.count_cons_self, List.count_cons_of_ne (by decide), hcount]
  · intro front back heq hfront hback
    rcases List.cons_eq_append_iff.1 heq with ⟨hnil, -⟩ | ⟨front, rfl, hrest⟩
    · exact absurd hnil hfront
    · have := hprefix front back hrest hback
      rw [List.count_cons_self, List.count_cons_of_ne (by decide)]
      omega

theorem Enclosed.of_filter {p : TokenKind → Bool} {kinds : List TokenKind}
    (hopen : p .openBrace = true) (hclose : p .closeBrace = true)
    (hfirst : ∀ kind ∈ kinds.head?, p kind = true) (hlast : ∀ kind ∈ kinds.getLast?, p kind = true)
    (h : Enclosed (kinds.filter p)) : Enclosed kinds := by
  obtain ⟨hcount, hprefix⟩ := h
  rw [List.count_filter hopen, List.count_filter hclose] at hcount
  refine ⟨hcount, ?_⟩
  rintro front back rfl hfront hback
  have hfront' : front.filter p ≠ [] := by
    obtain ⟨kind, front, rfl⟩ := List.exists_cons_of_ne_nil hfront
    intro hnil
    exact List.filter_eq_nil_iff.1 hnil kind List.mem_cons_self (hfirst kind rfl)
  have hback' : back.filter p ≠ [] := by
    have hlast' : p (back.getLast hback) = true := by
      apply hlast
      rw [List.getLast?_append, List.getLast?_eq_some_getLast hback]
      rfl
    intro hnil
    exact List.filter_eq_nil_iff.1 hnil _ (List.getLast_mem hback) hlast'
  have hlt := hprefix _ _ (List.filter_append front back) hfront' hback'
  rwa [List.count_filter hopen, List.count_filter hclose] at hlt

mutual

theorem hasError_eq_false {locate : Nat → Nat} (outline : Outline)
    (h : errors locate outline = []) : outline.hasError = false := by
  cases outline with
  | token kind => rfl
  | error kind index => cases h
  | node kind parts => exact hasErrorAll_eq_false parts h
  | around kind first later =>
      obtain ⟨hfirst, hlater⟩ := List.append_eq_nil_iff.1 h
      rw [Outline.hasError, hasError_eq_false first hfirst, hasErrorAll_eq_false later hlater]
      rfl
  | loose parts => exact hasErrorAll_eq_false parts h

theorem hasErrorAll_eq_false {locate : Nat → Nat} (parts : List Outline)
    (h : errorsAll locate parts = []) : Outline.hasErrorAll parts = false := by
  cases parts with
  | nil => rfl
  | cons part rest =>
      obtain ⟨hpart, hrest⟩ := List.append_eq_nil_iff.1 h
      rw [Outline.hasErrorAll, hasError_eq_false part hpart, hasErrorAll_eq_false rest hrest]
      rfl

end

section Account

variable {s : Subject} {text : String} (a : Account s text)

theorem node_cases (hneat : Neat a.parts) {kind : SyntaxKind} {children : List Tree}
    (hmem : .node kind children ∈ subtrees a.parse.tree) :
    (kind = .node .root ∧ children = a.trees ++ a.rest.map leafOf) ∨
      ∃ node row, kind = .node node ∧ Suits node row ∧
        ∃ i tokens j rest, AtSignificant tokens ∧ Weaves i tokens row children j rest := by
  rcases node_mem_trees a hmem with hroot | hmem
  · exact .inl hroot
  · obtain ⟨node, row, hkind, hrow, -, hweaves⟩ := madeOf_of_weaves a.weaves hmem
    exact .inr ⟨node, row, hkind, suits_of_mem_rowsAll a.parts hneat hrow, hweaves⟩

theorem paired_of_account (hneat : Neat a.parts) (hsingle : Single a.parts) {kind : SyntaxKind}
    {children : List Tree} (hmem : .node kind children ∈ subtrees a.parse.tree)
    (hkind : kind ≠ .node .codeBlock) :
    paired ((leafKinds children).filter isBracket) = true := by
  rcases node_cases a hneat hmem with ⟨rfl, rfl⟩ | ⟨node, row, rfl, hsuits, _, _, _, _, -, hweaves⟩
  · obtain ⟨outline, hparts, hlaid⟩ := hsingle
    rw [leafKinds_append, List.filter_append, brackets_of_weaves a.weaves,
      filter_isBracket_leaves a.trivia, hparts, hlaid.brackets_eq]
    rfl
  · rw [Suits, if_neg fun heq => hkind (congrArg SyntaxKind.node heq)] at hsuits
    rw [brackets_of_weaves hweaves]
    exact hsuits.2.1

theorem angles_of_account (hneat : Neat a.parts) {children : List Tree}
    (hmem : .node (.node .referenceParameterList) children ∈ subtrees a.parse.tree) :
    ∃ first inner last, children = .leaf .lt first :: (inner ++ [.leaf .gt last]) := by
  rcases node_cases a hneat hmem with ⟨heq, -⟩ | ⟨node, row, heq, hsuits, _, _, _, _, hat, hweaves⟩
  · cases heq
  · cases heq
    obtain ⟨inner, rfl⟩ := hsuits.2.2 rfl
    exact ends_of_weaves (by decide) hat hweaves

theorem block_of_account (hneat : Neat a.parts) {children : List Tree}
    (hmem : .node (.node .codeBlock) children ∈ subtrees a.parse.tree) :
    (∃ first inner last, children = .leaf .openBrace first :: (inner ++ [.leaf .closeBrace last])) ∧
      Enclosed ((Tree.forestLeaves children).map (·.1)) := by
  rcases node_cases a hneat hmem with ⟨heq, -⟩ | ⟨node, row, heq, hsuits, _, _, _, _, hat, hweaves⟩
  · cases heq
  · cases heq
    obtain ⟨kinds, rfl, hcloses⟩ := hsuits
    have htokens := tokensAll_of_weaves hweaves
    rw [tokensAll_map_token] at htokens
    obtain ⟨inner, rfl⟩ := List.getLast?_eq_some_iff.1 (getLast?_of_closes hcloses)
    rw [List.map_cons, List.map_append] at hweaves
    obtain ⟨first, between, last, rfl⟩ := ends_of_weaves (by decide) hat hweaves
    refine ⟨⟨first, between, last, rfl⟩, Enclosed.of_filter rfl rfl ?_ ?_
      (htokens ▸ enclosed_of_closes hcloses)⟩
    · simp [Tree.forestLeaves, Tree.leaves, TokenKind.isTrivia]
    · simp [Tree.forestLeaves, Tree.leaves, forestLeaves_append, List.getLast?_cons,
        TokenKind.isTrivia]

theorem errorless_of_account (hneat : Neat a.parts) (children : List Tree) :
    .node (.node .error) children ∉ subtrees a.parse.tree := by
  intro hmem
  rcases node_cases a hneat hmem with ⟨heq, -⟩ | ⟨node, row, heq, hsuits, -⟩
  · cases heq
  · cases heq
    exact hsuits.1 rfl

theorem readable_of_account (hneat : Neat a.parts) {kind : TokenKind}
    (hmem : kind ∈ exposed a.parse.tree) : Plain kind := by
  rw [Account.parse, exposed, if_neg (by decide), exposedAll_append] at hmem
  rcases List.mem_append.1 hmem with hmem | hmem
  · exact plain_of_mem_exposedAll a.weaves hneat hmem
  · exact plain_of_mem_exposedAll_leaves a.trivia hmem

theorem tokensAll_of_account :
    Outline.tokensAll a.parts = (Token.significant (Token.tokenize text)).map (·.kind) := by
  have htokens := a.covers.tokens_append
  rw [Terminal.map_kind_ofTokens] at htokens
  simpa using htokens

theorem terminated_of_account (hneat : Neat a.parts) {token : Token}
    (hmem : token ∈ Token.tokenize text) : token.kind ≠ .unterminatedBlockComment := by
  intro hkind
  -- it would be the last token of the text, and the outline would end with it
  have hne := List.ne_nil_of_mem hmem
  have hsplit := List.dropLast_concat_getLast hne
  rw [← hsplit, List.mem_append, List.mem_singleton] at hmem
  rcases hmem with hmem | rfl
  · exact tokenize_dropLast_ne_unterminatedBlockComment text token hmem hkind
  · have hlast : TokenKind.unterminatedBlockComment ∈ (Outline.tokensAll a.parts).getLast? := by
      rw [tokensAll_of_account, ← hsplit]
      simp [Token.significant, hkind, TokenKind.isTrivia]
    exact (plain_of_mem_getLast?_all a.parts hneat hlast).2.2 rfl

theorem filter_leaves_eq_nil {tokens : List Token}
    (htrivia : ∀ token ∈ tokens, token.kind.isTrivia = true) :
    (Tree.forestLeaves (tokens.map leafOf)).filter (fun leaf => !leaf.1.isTrivia) = [] := by
  rw [forestLeaves_map_leafOf, List.filter_eq_nil_iff, List.forall_mem_map]
  intro token hmem
  simp [htrivia token hmem]

theorem single_of_account (hsingle : Single a.parts) :
    ∃ (before : List Token) (kind : NodeKind) (children : List Tree) (behind : List Token),
      a.parse.tree = .node (.node .root)
        (before.map leafOf ++ .node (.node kind) children :: behind.map leafOf) ∧
      (∀ token ∈ before ++ behind, token.kind.isTrivia = true) ∧
      (Tree.forestLeaves children).filter (fun leaf => !leaf.1.isTrivia) =
        (Token.significant (Token.tokenize text)).map fun token => (token.kind, token.text) := by
  obtain ⟨outline, hparts, hlaid⟩ := hsingle
  have hweaves := a.weaves
  rw [hparts] at hweaves
  obtain ⟨blanks, -, kind, children, -, hblanks, -, htrees, -⟩ := single_of_weaves hlaid.1 hweaves
  have htree : a.parse.tree = .node (.node .root)
      (blanks.map leafOf ++ .node (.node kind) children :: a.rest.map leafOf) := by
    rw [Account.parse, htrees, List.append_assoc]
    rfl
  refine ⟨blanks, kind, children, a.rest, htree, ?_, ?_⟩
  · exact List.forall_mem_append.2 ⟨hblanks, a.trivia⟩
  · have hleaves := leaves_parse a
    rw [htree, Tree.leaves, forestLeaves_append, Tree.forestLeaves, Tree.leaves] at hleaves
    have hfilter := congrArg (List.filter fun leaf => !leaf.1.isTrivia) hleaves
    rw [List.filter_append, List.filter_append, filter_leaves_eq_nil hblanks,
      filter_leaves_eq_nil a.trivia, List.append_nil, List.nil_append, List.filter_map] at hfilter
    exact hfilter

end Account

theorem isComplete_of_account {s : Subject} {text : String} (a : Account s text)
    (herrors : a.parse.errors = []) : IsComplete (Token.tokenize text) a.parse.tree := by
  have hclean := hasErrorAll_eq_false a.parts herrors
  have hsingle := single_of_outline a.outline_eq hclean
  have hneat : Neat a.parts := by
    obtain ⟨outline, hparts, hlaid⟩ := hsingle
    rw [hparts, Outline.hasErrorAll, Bool.or_eq_false_iff] at hclean
    rw [hparts]
    exact ⟨hlaid.2 hclean.1, trivial⟩
  constructor
  · exact single_of_account a hsingle
  · exact errorless_of_account a hneat
  · intro kind hmem
    obtain ⟨hunknown, hliteral, -⟩ := readable_of_account a hneat hmem
    exact ⟨hunknown, hliteral⟩
  · intro leaf hmem
    rw [leaves_parse] at hmem
    obtain ⟨token, htoken, rfl⟩ := List.mem_map.1 hmem
    exact terminated_of_account a hneat htoken
  · exact fun kind children => paired_of_account a hneat hsingle
  · exact fun children => angles_of_account a hneat
  · exact fun children => block_of_account a hneat

/-- A text without errors is complete: its tree is one node between blanks and comments, nothing in
it is unexpected or could not be read but for the insides of blocks, and whatever bracket, angle or
brace it opens it also closes. -/
theorem isComplete_of_no_errors (s : Subject) (text : String) :
    ∃ parse, Parse.ofText s text = .ok parse ∧
      (parse.errors = [] → IsComplete (Token.tokenize text) parse.tree) := by
  obtain ⟨a, hparse⟩ := exists_account s text
  exact ⟨a.parse, hparse, isComplete_of_account a⟩

/-- A text with all sorts of brackets, in which the mark that could not be read is in a block. -/
theorem isComplete_newExpression :
    ∃ parse, Parse.ofText .expression "new A<B>(c[0]) \x7b # \x7d" = .ok parse ∧
      parse.errors = [] ∧ IsComplete (Token.tokenize "new A<B>(c[0]) \x7b # \x7d") parse.tree := by
  obtain ⟨parse, hparse, hcomplete⟩ :=
    isComplete_of_no_errors .expression "new A<B>(c[0]) \x7b # \x7d"
  have herrors : (Parse.ofText .expression "new A<B>(c[0]) \x7b # \x7d").toOption.map
      (·.errors) = some [] := by decide +kernel
  rw [hparse] at herrors
  have hnil := Option.some.inj herrors
  exact ⟨parse, hparse, hnil, hcomplete hnil⟩

end PatternSyntax.Proofs.Complete
