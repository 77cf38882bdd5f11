import Mathlib.Data.List.DropRight
import PatternSyntax.Proofs.Leftovers

/-!
Where blanks and comments are in a tree. Only the root begins or ends with them.
-/

namespace PatternSyntax.Proofs.Blanks

open Grammar
open PatternSyntax.Proofs.Elements
open PatternSyntax.Proofs.Endings
open PatternSyntax.Proofs.Forward
open PatternSyntax.Proofs.Leftovers
open PatternSyntax.Proofs.Marks
open PatternSyntax.Proofs.NeatTrees
open PatternSyntax.Proofs.Weave

/-- Whether an element is a blank or a comment. -/
def isBlank : Tree → Bool
  | .leaf kind _ => kind.isTrivia
  | .node _ _ => false

variable {i j : Nat} {tokens rest : List Token} {parts : List Outline} {trees : List Tree}

/-- If there are any elements, the first and the last one are no blanks, and so blanks have other
elements on both sides. -/
structure Bounded (children : List Tree) : Prop where
  head : ∀ tree ∈ children.head?, isBlank tree = false
  last : ∀ tree ∈ children.getLast?, isBlank tree = false
  between : ∀ before run behind, children = before ++ (run ++ behind) → run ≠ [] →
    (∀ tree ∈ run, isBlank tree = true) →
    (∃ tree ∈ before, isBlank tree = false) ∧ ∃ tree ∈ behind, isBlank tree = false

theorem bounded_of_ends {children : List Tree}
    (hhead : ∀ tree ∈ children.head?, isBlank tree = false)
    (hlast : ∀ tree ∈ children.getLast?, isBlank tree = false) : Bounded children := by
  refine ⟨hhead, hlast, ?_⟩
  rintro before run behind rfl hne hrun
  have hblank {tree : Tree} (hmem : tree ∈ run) : isBlank tree ≠ false := by simp [hrun tree hmem]
  constructor
  · cases before with
    | nil =>
        obtain ⟨tree, run, rfl⟩ := List.exists_cons_of_ne_nil hne
        exact absurd (hhead tree rfl) (hblank List.mem_cons_self)
    | cons tree before => exact ⟨tree, List.mem_cons_self, hhead tree rfl⟩
  · rcases List.eq_nil_or_concat behind with rfl | ⟨others, tree, rfl⟩
    · have hmem := List.getLast_mem hne
      refine absurd (hlast (run.getLast hne) ?_) (hblank hmem)
      rw [List.append_nil, List.getLast?_append, List.getLast?_eq_some_getLast hne]
      rfl
    · exact ⟨tree, by simp, hlast tree (by simp)⟩

theorem getLast?_cons_of {tree : Tree} (htree : isBlank tree = false)
    (htrees : ∀ tree ∈ trees.getLast?, isBlank tree = false) :
    ∀ last ∈ (tree :: trees).getLast?, isBlank last = false := by
  cases trees with
  | nil =>
      rintro _ ⟨⟩
      exact htree
  | cons => rwa [List.getLast?_cons_cons]

theorem getLast?_of_weaves (h : Weaves i tokens parts trees j rest) :
    ∀ tree ∈ trees.getLast?, isBlank tree = false := by
  induction h with
  | nil => nofun
  | trivia _ htrees _ ih =>
      obtain ⟨tree, trees, rfl⟩ := List.exists_cons_of_ne_nil htrees
      rwa [List.getLast?_cons_cons]
  | token hkind _ ih => exact getLast?_cons_of hkind ih
  | error _ _ ih => exact getLast?_cons_of rfl ih
  | node _ _ _ _ _ ih => exact getLast?_cons_of rfl ih
  | around _ _ _ _ _ _ _ _ ih => exact getLast?_cons_of rfl ih
  | @loose _ _ _ _ _ _ _ _ front back _ _ ihInner ih =>
      intro tree hmem
      rw [List.getLast?_append, Option.mem_def, Option.or_eq_some_iff] at hmem
      rcases hmem with hmem | ⟨-, hmem⟩
      · exact ih tree hmem
      · exact ihInner tree hmem

theorem head?_of_weaves (hat : AtSignificant tokens) (h : Weaves i tokens parts trees j rest) :
    ∀ tree ∈ trees.head?, isBlank tree = false := by
  induction h with
  | nil => nofun
  | trivia htrivia => simp [hat _ rfl] at htrivia
  | token hkind =>
      rintro _ ⟨⟩
      exact hkind
  | error =>
      rintro _ ⟨⟩
      rfl
  | node =>
      rintro _ ⟨⟩
      rfl
  | around =>
      rintro _ ⟨⟩
      rfl
  | @loose _ _ _ _ _ _ _ _ front back hinner _ ihInner ih =>
      cases front with
      | nil =>
          obtain ⟨-, rfl, -⟩ := hinner.of_trees_eq_nil rfl
          exact ih hat
      | cons tree front => exact ihInner hat

theorem exists_lead_of_weaves (h : Weaves i tokens parts trees j rest) (htrees : trees ≠ []) :
    ∃ others, trees = (tokens.takeWhile (·.kind.isTrivia)).map leafOf ++ others := by
  have hat {tokens : List Token} {trees : List Tree} (hat : AtSignificant tokens) :
      ∃ others, trees = (tokens.takeWhile (·.kind.isTrivia)).map leafOf ++ others := by
    refine ⟨trees, ?_⟩
    cases tokens with
    | nil => rfl
    | cons token tokens =>
        rw [List.takeWhile_cons_of_neg (by simp [hat token rfl])]
        rfl
  induction h with
  | nil => exact absurd rfl htrees
  | trivia htrivia hne _ ih =>
      obtain ⟨others, heq⟩ := ih hne
      refine ⟨others, ?_⟩
      rw [List.takeWhile_cons, if_pos htrivia, List.map_cons, List.cons_append, ← heq]
  | token hkind => exact hat fun _ heq => Option.some.inj heq ▸ hkind
  | error hsignificant => exact hat hsignificant
  | node hsignificant => exact hat hsignificant
  | around hsignificant => exact hat hsignificant
  | @loose _ _ _ _ _ _ _ _ front back hinner _ ihInner ih =>
      by_cases hnil : front = []
      · subst hnil
        obtain ⟨-, rfl, -⟩ := hinner.of_trees_eq_nil rfl
        exact ih htrees
      · obtain ⟨others, heq⟩ := ihInner hnil
        exact ⟨others ++ back, by rw [heq, List.append_assoc]⟩

theorem suffix_of_weaves (h : Weaves i tokens parts trees j rest) : rest <:+ tokens := by
  induction h with
  | nil => exact List.suffix_refl _
  | trivia _ _ _ ih => exact ih.trans (List.suffix_cons _ _)
  | token _ _ ih => exact ih.trans (List.suffix_cons _ _)
  | error _ _ ih => exact ih
  | node _ _ _ _ ihInner ih => exact ih.trans ihInner
  | around _ _ _ _ _ _ ihFirst ihInner ih => exact ih.trans (ihInner.trans ihFirst)
  | loose _ _ ihInner ih => exact ih.trans ihInner

/-- The tokens up to `rest` end with a significant one. -/
def EndsAt (tokens rest : List Token) : Prop :=
  ∃ front last, tokens = front ++ last :: rest ∧ last.kind.isTrivia = false

theorem EndsAt.of_suffix {later : List Token} (h : EndsAt later rest) (hsuffix : later <:+ tokens) :
    EndsAt tokens rest := by
  obtain ⟨front, last, rfl, hlast⟩ := h
  obtain ⟨before, rfl⟩ := hsuffix
  exact ⟨before ++ front, last, (List.append_assoc ..).symm, hlast⟩

theorem EndsAt.cons {mid : Nat} {later : List Token} {part : Outline}
    (hpart : ended part = true → EndsAt tokens later) (hsuffix : later <:+ tokens)
    (hlater : Weaves mid later parts trees j rest)
    (ih : endedAll parts = true → EndsAt later rest) (hended : endedAll (part :: parts) = true) :
    EndsAt tokens rest := by
  cases parts with
  | nil =>
      obtain ⟨-, rfl, -⟩ := hlater.of_trees_eq_nil (eq_nil_of_weaves_nil hlater)
      exact hpart hended
  | cons => exact (ih hended).of_suffix hsuffix

theorem endsAt_of_weaves (h : Weaves i tokens parts trees j rest) (hclean : marksAll parts = [])
    (hended : endedAll parts = true) : EndsAt tokens rest := by
  induction h with
  | nil => cases hended
  | trivia _ _ _ ih => exact (ih hclean hended).of_suffix (List.suffix_cons _ _)
  | token hkind hlater ih =>
      exact EndsAt.cons (fun _ => ⟨[], _, rfl, hkind⟩) (List.suffix_cons _ _) hlater (ih hclean)
        hended
  | error => cases hclean
  | node _ _ hinner hlater ihInner ih =>
      obtain ⟨hclean, hclean'⟩ := List.append_eq_nil_iff.1 hclean
      refine EndsAt.cons (fun hpart => ?_) (suffix_of_weaves hinner) hlater (ih hclean') hended
      exact ihInner hclean hpart
  | around _ _ _ hfirst hinner hlater ihFirst ihInner ih =>
      obtain ⟨hclean, hclean'⟩ := List.append_eq_nil_iff.1 hclean
      obtain ⟨hclean, hinner'⟩ := List.append_eq_nil_iff.1 hclean
      have hsuffix := suffix_of_weaves hfirst
      refine EndsAt.cons (fun hnode => ?_) ((suffix_of_weaves hinner).trans hsuffix) hlater
        (ih hclean') hended
      -- The parts that come later end the node, or its first part does.
      exact EndsAt.cons (fun hhead => ihFirst (by simpa [marksAll] using hclean) hhead) hsuffix
        hinner (ihInner hinner') hnode
  | loose hinner hlater ihInner ih =>
      obtain ⟨hclean, hclean'⟩ := List.append_eq_nil_iff.1 hclean
      refine EndsAt.cons (fun hpart => ?_) (suffix_of_weaves hinner) hlater (ih hclean') hended
      exact ihInner hclean hpart

theorem EndsAt.rtakeWhile_eq (h : EndsAt tokens rest)
    (hrest : ∀ token ∈ rest, token.kind.isTrivia = true) :
    tokens.rtakeWhile (·.kind.isTrivia) = rest := by
  obtain ⟨front, last, rfl, hlast⟩ := h
  rw [List.rtakeWhile, List.reverse_append, List.reverse_cons, List.append_assoc,
    List.takeWhile_append_of_pos (by simpa using hrest), List.singleton_append,
    List.takeWhile_cons_of_neg (by simp [hlast]), List.append_nil, List.reverse_reverse]

variable {s : Subject} {text : String}

theorem bounded_of_mem (a : Account s text) {kind : SyntaxKind} {children : List Tree}
    (hmem : .node kind children ∈ subtreesAll (a.trees ++ a.rest.map leafOf)) :
    Bounded children := by
  rw [subtreesAll_append] at hmem
  obtain ⟨_, _, _, _, -, _, _, _, _, hat, hweaves⟩ := madeOf_of_weaves a.weaves
    ((List.mem_append.1 hmem).resolve_right (node_notMem_leaves _ _ _))
  exact bounded_of_ends (head?_of_weaves hat hweaves) (getLast?_of_weaves hweaves)

theorem exists_whole_subject (a : Account s text) (hclean : marksAll a.parts = []) :
    ∃ inner, deepEnough (fun r => Grammar.subject r s) (origin text) = .ok inner ∧
      inner.cursor.rest = [] ∧ endsInError inner.parts = false ∧ a.parts = inner.parts := by
  obtain ⟨inner, hrun, hcovers, hparts⟩ := exists_subject a
  rw [hparts, marksAll_append, List.append_eq_nil_iff, marksAll_leftovers] at hclean
  obtain ⟨hinner, hleft⟩ := hclean
  have hends : endsInError inner.parts = false := by
    rcases endsInError_cases hcovers with ⟨-, mark, hlast, -⟩ | ⟨hends, -⟩
    · simp [hinner] at hlast
    · exact hends
  have hempty : inner.cursor.rest.isEmpty = true := by simpa [hends] using hleft
  refine ⟨inner, hrun, List.isEmpty_iff.1 hempty, hends, ?_⟩
  rw [hparts, leftovers, if_pos hempty, List.append_nil]

theorem endedAll_of_account (a : Account s text) (hclean : marksAll a.parts = []) :
    endedAll a.parts = true := by
  obtain ⟨inner, hrun, -, hends, hparts⟩ := exists_whole_subject a hclean
  rw [hparts]
  rcases ended_or_unexpected hrun with ⟨-, hended⟩ | ⟨hends', -⟩
  · exact hended
  · rw [hends] at hends'
    cases hends'

/-- Without errors the blanks and comments around all significant tokens belong to the root. -/
theorem exists_middle (a : Account s text) (herrors : a.parse.errors = []) :
    ∃ middle, a.trees ++ a.rest.map leafOf =
      ((Token.tokenize text).takeWhile (·.kind.isTrivia)).map leafOf ++ (middle ++
        ((Token.tokenize text).rtakeWhile (·.kind.isTrivia)).map leafOf) := by
  have hclean : marksAll a.parts = [] :=
    (hasErrorAll_eq_false_iff _).1 ((errors_eq_nil_iff a).1 herrors)
  have hends := endsAt_of_weaves a.weaves hclean (endedAll_of_account a hclean)
  have htrees : a.trees ≠ [] := by
    intro hnil
    obtain ⟨-, heq, -⟩ := a.weaves.of_trees_eq_nil hnil
    obtain ⟨front, last, htokens, -⟩ := hends
    have hlength := congrArg List.length (heq.symm.trans htokens)
    simp only [List.length_append, List.length_cons] at hlength
    omega
  obtain ⟨middle, hmiddle⟩ := exists_lead_of_weaves a.weaves htrees
  exact ⟨middle, by rw [hends.rtakeWhile_eq a.trivia, ← List.append_assoc, ← hmiddle]⟩

/-- Only the root begins or ends with blanks and comments: in any other node they have other
elements on both sides. If a text has no errors, those before its first significant token and behind
its last one are children of the root. -/
theorem blanks_of_parse (s : Subject) (text : String) :
    ∃ parse children, Parse.ofText s text = .ok parse ∧
      parse.tree = .node (.node .root) children ∧
      (∀ kind inner, .node kind inner ∈ subtreesAll children → Bounded inner) ∧
      (parse.errors = [] → ∃ middle, children =
        ((Token.tokenize text).takeWhile (·.kind.isTrivia)).map leafOf ++ (middle ++
          ((Token.tokenize text).rtakeWhile (·.kind.isTrivia)).map leafOf)) := by
  obtain ⟨a, hparse⟩ := exists_account s text
  exact ⟨a.parse, _, hparse, rfl, fun _ _ => bounded_of_mem a, exists_middle a⟩

/-- A text whose blanks and comments are in all sorts of places. -/
theorem blanks_of_parse_commented :
    ∃ parse children, Parse.ofText .pattern "// a\n final /* b */ A x " = .ok parse ∧
      parse.tree = .node (.node .root) children ∧ parse.errors = [] ∧
      ∃ middle, children = [.leaf .lineComment "// a", .leaf .whitespace "\n "] ++
        (middle ++ [.leaf .whitespace " "]) := by
  obtain ⟨parse, children, hparse, htree, -, hmiddle⟩ :=
    blanks_of_parse .pattern "// a\n final /* b */ A x "
  have herrors : (Parse.ofText .pattern "// a\n final /* b */ A x ").toOption.map
      (·.errors) = some [] := by decide +kernel
  rw [hparse] at herrors
  have hnil := Option.some.inj herrors
  have hlead : (Token.tokenize "// a\n final /* b */ A x ").takeWhile (·.kind.isTrivia) =
      [⟨.lineComment, 0, "// a"⟩, ⟨.whitespace, 4, "\n "⟩] := by decide +kernel
  have htrail : (Token.tokenize "// a\n final /* b */ A x ").rtakeWhile (·.kind.isTrivia) =
      [⟨.whitespace, 23, " "⟩] := by decide +kernel
  rw [hlead, htrail] at hmiddle
  exact ⟨parse, children, hparse, htree, hnil, hmiddle hnil⟩

end PatternSyntax.Proofs.Blanks
