import PatternSyntax.Proofs.Lossless

/-!
The same outlines over the same tokens make the same elements, wherever in a text the tokens stand.
What comes behind them in the two texts may differ.
-/

namespace PatternSyntax.Proofs.Copies

open PatternSyntax.Proofs.Lossless
open PatternSyntax.Proofs.Weave

variable {i i' j j' : Nat} {tail tail' tokens tokens' rest rest' : List Token}
  {parts : List Outline} {trees trees' : List Tree}

/-- Two rows of tokens are the same up to what comes behind in them, but for the places. -/
def Copied (tail tail' tokens tokens' : List Token) : Prop :=
  ∃ front front', tokens = front ++ tail ∧ tokens' = front' ++ tail' ∧
    front.map leafOf = front'.map leafOf

theorem Copied.cons {token : Token} (h : Copied tail tail' (token :: tokens) tokens')
    (hlength : tail.length ≤ tokens.length) :
    ∃ token' later, tokens' = token' :: later ∧ leafOf token = leafOf token' ∧
      Copied tail tail' tokens later := by
  obtain ⟨front, front', htokens, rfl, hsame⟩ := h
  cases front with
  | nil =>
      rw [← show token :: tokens = tail from htokens, List.length_cons] at hlength
      omega
  | cons first front =>
      obtain ⟨rfl, rfl⟩ := List.cons.inj htokens
      cases front' with
      | nil => cases hsame
      | cons first' front' =>
          obtain ⟨hfirst, hfront⟩ := List.cons.inj hsame
          exact ⟨first', front' ++ tail', rfl, hfirst, front, front', rfl, rfl, hfront⟩

theorem kind_eq_of_leafOf {token token' : Token} (h : leafOf token = leafOf token') :
    token.kind = token'.kind :=
  (Tree.leaf.inj h).1

theorem Copied.atSignificant (h : Copied tail tail' tokens tokens')
    (htail : AtSignificant tail → AtSignificant tail') (hat : AtSignificant tokens) :
    AtSignificant tokens' := by
  obtain ⟨front, front', rfl, rfl, hsame⟩ := h
  cases front with
  | nil =>
      obtain rfl := List.map_eq_nil_iff.1 hsame.symm
      exact htail hat
  | cons first front =>
      cases front' with
      | nil => cases hsame
      | cons first' front' =>
          rintro token ⟨⟩
          rw [← kind_eq_of_leafOf (List.cons.inj hsame).1]
          exact hat first rfl

theorem place_append (start : Nat) (front back : List (TokenKind × List Char)) :
    ∃ next, Token.place start (front ++ back) =
      Token.place start front ++ Token.place next back := by
  induction front generalizing start with
  | nil => exact ⟨start, rfl⟩
  | cons piece front ih =>
      obtain ⟨next, hplace⟩ := ih _
      exact ⟨next, congrArg _ hplace⟩

theorem map_leafOf_place (start start' : Nat) (pieces : List (TokenKind × List Char)) :
    (Token.place start pieces).map leafOf = (Token.place start' pieces).map leafOf := by
  induction pieces generalizing start start' with
  | nil => rfl
  | cons piece rest ih => exact congrArg (.leaf piece.1 (String.ofList piece.2) :: ·) (ih _ _)

theorem copied_dropWhile {front front' : List Token} (hsame : front.map leafOf = front'.map leafOf)
    (hsolid : ∃ token ∈ front, token.kind.isTrivia = false) (tail tail' : List Token) :
    Copied tail tail' ((front ++ tail).dropWhile (·.kind.isTrivia))
      ((front' ++ tail').dropWhile (·.kind.isTrivia)) := by
  induction front generalizing front' with
  | nil =>
      obtain ⟨_, hmem, -⟩ := hsolid
      cases hmem
  | cons token front ih =>
      cases front' with
      | nil => cases hsame
      | cons token' front' =>
          obtain ⟨htoken, hfront⟩ := List.cons.inj hsame
          rw [List.cons_append, List.cons_append, List.dropWhile_cons, List.dropWhile_cons,
            ← kind_eq_of_leafOf htoken]
          split
          · refine ih hfront ?_
            obtain ⟨other, hmem, hother⟩ := hsolid
            rcases List.mem_cons.1 hmem with rfl | hmem
            · simp [hother] at *
            · exact ⟨other, hmem, hother⟩
          · exact ⟨token :: front, token' :: front', rfl, rfl, hsame⟩

theorem dropWhile_blanks {blanks later : List Token}
    (hblanks : ∀ token ∈ blanks, token.kind.isTrivia = true) (hat : AtSignificant later) :
    (blanks ++ later).dropWhile (·.kind.isTrivia) = later := by
  rw [List.dropWhile_append_of_pos hblanks]
  cases later with
  | nil => rfl
  | cons token later => exact List.dropWhile_cons_of_neg (by simp [hat token rfl])

/-- Rows with the same tokens between blanks are copies of each other from the first significant
token on. -/
theorem copied_of_rows {blanks blanks' front front' before before' later later' : List Token}
    (hblanks : ∀ token ∈ blanks ++ before, token.kind.isTrivia = true)
    (hblanks' : ∀ token ∈ blanks' ++ before', token.kind.isTrivia = true)
    (hrow : blanks ++ (front ++ tail) = before ++ later)
    (hrow' : blanks' ++ (front' ++ tail') = before' ++ later') (hat : AtSignificant later)
    (hat' : AtSignificant later') (hsame : front.map leafOf = front'.map leafOf)
    (hsolid : ∃ token ∈ front, token.kind.isTrivia = false) : Copied tail tail' later later' := by
  obtain ⟨hblanks, hbefore⟩ := List.forall_mem_append.1 hblanks
  obtain ⟨hblanks', hbefore'⟩ := List.forall_mem_append.1 hblanks'
  have hdrop := congrArg (List.dropWhile (·.kind.isTrivia)) hrow
  have hdrop' := congrArg (List.dropWhile (·.kind.isTrivia)) hrow'
  rw [List.dropWhile_append_of_pos hblanks, dropWhile_blanks hbefore hat] at hdrop
  rw [List.dropWhile_append_of_pos hblanks', dropWhile_blanks hbefore' hat'] at hdrop'
  rw [← hdrop, ← hdrop']
  exact copied_dropWhile hsame hsolid tail tail'

theorem length_rest_le (h : Weaves i tokens parts trees j rest) : rest.length ≤ tokens.length := by
  have hlength := congrArg List.length (leaves_of_weaves h)
  rw [List.length_append, List.length_map, List.length_map] at hlength
  omega

theorem trees_eq_nil (h : Weaves i tokens parts trees j rest)
    (hsize : Outline.sizeAll parts = 0) : trees = [] := by
  induction h with
  | nil => rfl
  | trivia _ htrees _ ih => exact absurd (ih hsize) htrees
  | token => simp [Outline.sizeAll, Outline.size] at hsize
  | error => simp [Outline.sizeAll, Outline.size] at hsize
  | node => simp [Outline.sizeAll, Outline.size] at hsize
  | around => simp [Outline.sizeAll, Outline.size] at hsize
  | loose _ _ ihInner ih =>
      simp only [Outline.sizeAll, Outline.size] at hsize
      split at hsize
      · rw [ihInner ‹_›, ih (by omega)]
        rfl
      · omega

theorem exists_of_trivia {token : Token} (htrivia : token.kind.isTrivia = true)
    (htrees : trees ≠ []) (h : Weaves i (token :: tokens) parts trees j rest) :
    ∃ later, trees = leafOf token :: later ∧ later ≠ [] ∧ Weaves i tokens parts later j rest := by
  generalize hrow : token :: tokens = row at h
  have hcontra {row : List Token} (hat : AtSignificant row) (hrow : token :: tokens = row) :
      False := by
    subst hrow
    rw [hat token rfl] at htrivia
    cases htrivia
  induction h with
  | nil => exact absurd rfl htrees
  | trivia _ hlater hweaves =>
      cases hrow
      exact ⟨_, rfl, hlater, hweaves⟩
  | token hkind =>
      cases hrow
      rw [hkind] at htrivia
      cases htrivia
  | error hat => exact (hcontra hat hrow).elim
  | node hat => exact (hcontra hat hrow).elim
  | around hat => exact (hcontra hat hrow).elim
  | @loose _ _ _ _ _ _ inner _ front back hinner hlater ihInner ih =>
      by_cases hfront : front = []
      · subst hfront
        obtain ⟨rfl, rfl, hany⟩ := hinner.of_trees_eq_nil rfl
        obtain ⟨later, rfl, hne, hweaves⟩ := ih htrees hrow
        exact ⟨later, rfl, hne, .loose (hany _) hweaves⟩
      · obtain ⟨later, rfl, hne, hweaves⟩ := ihInner hfront hrow
        exact ⟨later ++ back, rfl, List.append_ne_nil_of_left_ne_nil hne _, .loose hweaves hlater⟩

theorem weaves_of_loose (h : Weaves i tokens [.loose parts] trees j rest) :
    Weaves i tokens parts trees j rest := by
  generalize hrow : [Outline.loose parts] = row at h
  induction h with
  | nil => cases hrow
  | trivia htrivia htrees _ ih => exact .trivia htrivia htrees (ih hrow)
  | token => cases hrow
  | error => cases hrow
  | node => cases hrow
  | around => cases hrow
  | loose hinner hlater =>
      cases hrow
      obtain rfl := trees_eq_nil hlater rfl
      obtain ⟨rfl, rfl, -⟩ := hlater.of_trees_eq_nil rfl
      rwa [List.append_nil]

section Inversion

variable (hat : AtSignificant tokens)

include hat

theorem exists_of_token {kind : TokenKind}
    (h : Weaves i tokens (.token kind :: parts) trees j rest) :
    ∃ token later more, tokens = token :: later ∧ trees = leafOf token :: more ∧
      Weaves (i + 1) later parts more j rest := by
  generalize hrow : Outline.token kind :: parts = row at h
  cases h with
  | trivia htrivia => simp [hat _ rfl] at htrivia
  | token _ hlater =>
      cases hrow
      exact ⟨_, _, _, rfl, rfl, hlater⟩
  | nil => cases hrow
  | error => cases hrow
  | node => cases hrow
  | around => cases hrow
  | loose => cases hrow

theorem exists_of_error {kind : ErrorKind} {index : Nat}
    (h : Weaves i tokens (.error kind index :: parts) trees j rest) :
    ∃ more, trees = .node (.node .error) [] :: more ∧ Weaves i tokens parts more j rest := by
  cases h with
  | trivia htrivia => simp [hat _ rfl] at htrivia
  | error _ hlater => exact ⟨_, rfl, hlater⟩

theorem exists_of_node {kind : NodeKind} {inner : List Outline}
    (h : Weaves i tokens (.node kind inner :: parts) trees j rest) :
    ∃ children more mid later, trees = .node (.node kind) children :: more ∧
      Weaves i tokens inner children mid later ∧ Weaves mid later parts more j rest := by
  cases h with
  | trivia htrivia => simp [hat _ rfl] at htrivia
  | node _ _ hinner hlater => exact ⟨_, _, _, _, rfl, hinner, hlater⟩

theorem exists_of_around {kind : NodeKind} {first : Outline} {inner : List Outline}
    (h : Weaves i tokens (.around kind first inner :: parts) trees j rest) :
    ∃ head children more mid later last final,
      trees = .node (.node kind) (head :: children) :: more ∧
      Weaves i tokens [first] [head] mid later ∧ Weaves mid later inner children last final ∧
      Weaves last final parts more j rest := by
  cases h with
  | trivia htrivia => simp [hat _ rfl] at htrivia
  | around _ _ _ hfirst hinner hlater =>
      exact ⟨_, _, _, _, _, _, _, rfl, hfirst, hinner, hlater⟩

end Inversion

/-- Outlines make the same elements of a row of tokens and of a copy of it. The induction is on the
first way to make them; the second one can only go along. -/
theorem Copied.trees_eq (htail : AtSignificant tail → AtSignificant tail')
    (h : Weaves i tokens parts trees j rest) (hcopied : Copied tail tail' tokens tokens')
    (hlength : tail.length ≤ rest.length) (h' : Weaves i' tokens' parts trees' j' rest') :
    trees' = trees ∧ Copied tail tail' rest rest' := by
  -- What the row takes lies before the tails, since as much as the first tail is left behind it.
  induction h generalizing i' j' tokens' rest' trees' with
  | nil =>
      obtain rfl := trees_eq_nil h' rfl
      obtain ⟨-, rfl, -⟩ := h'.of_trees_eq_nil rfl
      exact ⟨rfl, hcopied⟩
  | trivia htrivia htrees hlater ih =>
      obtain ⟨token', later', rfl, hleaf, hcopied⟩ :=
        hcopied.cons (hlength.trans (length_rest_le hlater))
      have htrees' : trees' ≠ [] := fun hnil =>
        htrees (trees_eq_nil hlater (h'.sizeAll_eq_zero hnil))
      obtain ⟨more, rfl, -, hmore⟩ :=
        exists_of_trivia (by rwa [← kind_eq_of_leafOf hleaf]) htrees' h'
      obtain ⟨rfl, hrest⟩ := ih hcopied hlength hmore
      exact ⟨by rw [hleaf], hrest⟩
  | @token _ _ token tokens _ _ _ hkind hlater ih =>
      have hat : AtSignificant (token :: tokens) := by
        rintro _ ⟨⟩
        exact hkind
      obtain ⟨token', later', more, rfl, rfl, hmore⟩ :=
        exists_of_token (hcopied.atSignificant htail hat) h'
      obtain ⟨_, _, heq, hleaf, hcopied⟩ := hcopied.cons (hlength.trans (length_rest_le hlater))
      obtain ⟨rfl, rfl⟩ := List.cons.inj heq
      obtain ⟨rfl, hrest⟩ := ih hcopied hlength hmore
      exact ⟨by rw [hleaf], hrest⟩
  | error hat hlater ih =>
      obtain ⟨more, rfl, hmore⟩ := exists_of_error (hcopied.atSignificant htail hat) h'
      obtain ⟨rfl, hrest⟩ := ih hcopied hlength hmore
      exact ⟨rfl, hrest⟩
  | node hat hfits hinner hlater ihInner ih =>
      obtain ⟨children, more, mid, later, rfl, hchildren, hmore⟩ :=
        exists_of_node (hcopied.atSignificant htail hat) h'
      obtain ⟨rfl, hmid⟩ := ihInner hcopied (hlength.trans (length_rest_le hlater)) hchildren
      obtain ⟨rfl, hrest⟩ := ih hmid hlength hmore
      exact ⟨rfl, hrest⟩
  | around hat hkind hnode hfirst hinner hlater ihFirst ihInner ih =>
      obtain ⟨head, children, more, mid, later, last, final, rfl, hhead, hchildren, hmore⟩ :=
        exists_of_around (hcopied.atSignificant htail hat) h'
      have hfinal := hlength.trans (length_rest_le hlater)
      obtain ⟨heq, hmid⟩ := ihFirst hcopied (hfinal.trans (length_rest_le hinner)) hhead
      obtain ⟨rfl, hlast⟩ := ihInner hmid hfinal hchildren
      obtain ⟨rfl, hrest⟩ := ih hlast hlength hmore
      exact ⟨by rw [List.singleton_inj.1 heq], hrest⟩
  | loose hinner hlater ihInner ih =>
      rw [← List.singleton_append] at h'
      obtain ⟨front, back, mid, later, rfl, hfront, hback⟩ := h'.split
      obtain ⟨rfl, hmid⟩ := ihInner hcopied (hlength.trans (length_rest_le hlater))
        (weaves_of_loose hfront)
      obtain ⟨rfl, hrest⟩ := ih hmid hlength hback
      exact ⟨rfl, hrest⟩

end PatternSyntax.Proofs.Copies
