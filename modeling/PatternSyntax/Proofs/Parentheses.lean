import PatternSyntax.Proofs.Neatness
import PatternSyntax.Proofs.Shapes

/-!
Parentheses, counted token by token. The rules pass over a block without looking into it, but the
search for the arrow of a lambda expression counts what stands in it. Everywhere else the two agree.
-/

namespace PatternSyntax.Proofs.Parentheses

open Grammar (arrowFollows isLambda)
open PatternSyntax.Proofs.Neatness
open PatternSyntax.Proofs.Shapes

/-- How deep tokens end that begin `depth` deep in parentheses, unless they close one too many. -/
def nest : Nat → List TokenKind → Option Nat
  | depth, [] => some depth
  | depth, kind :: rest =>
    match kind, depth with
    | .openParen, depth => nest (depth + 1) rest
    | .closeParen, 0 => none
    | .closeParen, depth + 1 => nest depth rest
    | _, depth => nest depth rest

/-- Whether each parenthesis is closed after it was opened. -/
def isBalanced (kinds : List TokenKind) : Bool :=
  nest 0 kinds == some 0

/-- Tokens that a count goes over without a change. -/
def Level (kinds : List TokenKind) : Prop :=
  ∀ depth rest, nest depth (kinds ++ rest) = nest depth rest

theorem nest_append {front : List TokenKind} {depth stop : Nat} (h : nest depth front = some stop)
    (back : List TokenKind) : nest depth (front ++ back) = nest stop back := by
  induction front generalizing depth with
  | nil =>
      cases h
      rfl
  | cons kind front ih =>
      cases kind with
      | openParen => exact ih h
      | closeParen =>
          cases depth with
          | zero => cases h
          | succ depth => exact ih h
      | _ => exact ih h

/-- What comes first does not matter if the count goes the same way over what comes then. -/
theorem nest_append_congr {back back' : List TokenKind}
    (h : ∀ depth, nest depth back = nest depth back') (front : List TokenKind) (depth : Nat) :
    nest depth (front ++ back) = nest depth (front ++ back') := by
  induction front generalizing depth with
  | nil => exact h depth
  | cons kind front ih =>
      cases kind with
      | openParen => exact ih (depth + 1)
      | closeParen =>
          cases depth with
          | zero => rfl
          | succ depth => exact ih depth
      | _ => exact ih depth

theorem nest_add {kinds : List TokenKind} {depth stop : Nat} (h : nest depth kinds = some stop)
    (extra : Nat) : nest (depth + extra) kinds = some (stop + extra) := by
  induction kinds generalizing depth with
  | nil =>
      cases h
      rfl
  | cons kind kinds ih =>
      cases kind with
      | openParen =>
          have hdeeper := ih h
          rwa [Nat.add_right_comm] at hdeeper
      | closeParen =>
          cases depth with
          | zero => cases h
          | succ depth =>
              rw [Nat.add_right_comm]
              exact ih h
      | _ => exact ih h

theorem level_of_isBalanced {kinds : List TokenKind} (h : isBalanced kinds = true) :
    Level kinds := by
  intro depth rest
  have := nest_add (beq_iff_eq.1 h) depth
  rw [Nat.zero_add] at this
  exact nest_append this rest

theorem arrowFollows_append {front : List Terminal} {depth stop : Nat}
    (h : nest depth (front.map (·.kind)) = some stop) (back : List Terminal) :
    arrowFollows depth (front ++ back) = arrowFollows stop back := by
  induction front generalizing depth with
  | nil =>
      cases h
      rfl
  | cons terminal front ih =>
      obtain ⟨kind, glued⟩ := terminal
      cases kind with
      | openParen => exact ih h
      | closeParen =>
          cases depth with
          | zero => cases h
          | succ depth => exact ih h
      | _ => exact ih h

/-- Behind balanced parentheses, a lambda expression has begun if an arrow comes next. -/
theorem isLambda_append {front rest : List Terminal} {kinds : List TokenKind}
    (hfront : front.map (·.kind) = .openParen :: (kinds ++ [.closeParen]))
    (hkinds : nest 0 kinds = some 0) :
    isLambda (front ++ rest) = rest.head?.any (·.kind == .arrow) := by
  obtain ⟨⟨kind, glued⟩, later, rfl, hkind, hlater⟩ := List.map_eq_cons_iff.1 hfront
  cases hkind
  obtain ⟨middle, last, rfl, rfl, hlast⟩ := List.map_eq_append_iff.1 hlater
  obtain ⟨⟨kind', glued'⟩, none, rfl, hkind', hnone⟩ := List.map_eq_cons_iff.1 hlast
  cases hkind'
  cases List.map_eq_nil_iff.1 hnone
  rw [List.cons_append, List.append_assoc]
  exact arrowFollows_append hkinds _

theorem nest_filter_isBracket (kinds : List TokenKind) (depth : Nat) (rest : List TokenKind) :
    nest depth (kinds.filter isBracket ++ rest) = nest depth (kinds ++ rest) := by
  induction kinds generalizing depth with
  | nil => rfl
  | cons kind kinds ih =>
      rw [List.filter_cons]
      cases kind with
      | openParen => exact ih (depth + 1)
      | closeParen =>
          cases depth with
          | zero => rfl
          | succ depth => exact ih depth
      | _ => exact ih depth

theorem level_of_paired {kinds : List TokenKind} (h : paired kinds = true) : Level kinds := by
  intro depth rest
  fun_induction paired kinds with
  | case1 => rfl
  | case2 kinds ih => exact ih h
  | case3 kinds ih => exact ih h
  | case4 kinds ih => exact ih h
  | case5 => cases h

theorem level_directAll {parts : List Outline} (h : paired (brackets parts) = true) :
    Level (directAll parts) := by
  intro depth rest
  rw [← nest_filter_isBracket]
  exact level_of_paired h depth rest

mutual

/-- The tokens of a shape, from left to right. -/
def kinds : Shape → List TokenKind
  | .token kind => [kind]
  | .node _ children => kindsAll children

/-- The tokens of a row of shapes, from left to right. -/
def kindsAll : List Shape → List TokenKind
  | [] => []
  | child :: rest => kinds child ++ kindsAll rest

end

mutual

/-- Whether the parentheses in every block are balanced. -/
def evenBlocks : Shape → Bool
  | .token _ => true
  | .node kind children =>
    (kind != .node .codeBlock || isBalanced (kindsAll children)) && evenBlocksAll children

/-- Whether the parentheses in every block of a row are balanced. -/
def evenBlocksAll : List Shape → Bool
  | [] => true
  | child :: rest => evenBlocks child && evenBlocksAll rest

end

theorem kindsAll_append (front back : List Shape) :
    kindsAll (front ++ back) = kindsAll front ++ kindsAll back := by
  induction front with
  | nil => rfl
  | cons child front ih => rw [List.cons_append, kindsAll, kindsAll, ih, List.append_assoc]

theorem evenBlocksAll_append (front back : List Shape) :
    evenBlocksAll (front ++ back) = (evenBlocksAll front && evenBlocksAll back) := by
  induction front with
  | nil => rfl
  | cons child front ih =>
      rw [List.cons_append, evenBlocksAll, evenBlocksAll, ih, Bool.and_assoc]

theorem tokensAll_append (front back : List Outline) :
    Outline.tokensAll (front ++ back) = Outline.tokensAll front ++ Outline.tokensAll back := by
  induction front with
  | nil => rfl
  | cons part front ih =>
      rw [List.cons_append, Outline.tokensAll, Outline.tokensAll, ih, List.append_assoc]

mutual

theorem kindsAll_outlined (outline : Outline) : kindsAll (outlined outline) = outline.tokens := by
  cases outline with
  | token kind => rfl
  | error kind index => rfl
  | node kind parts =>
      rw [outlined, kindsAll, kinds, kindsAll_outlinedAll parts]
      exact List.append_nil _
  | around kind first later =>
      rw [outlined, kindsAll, kinds, kindsAll_append, kindsAll_outlined first,
        kindsAll_outlinedAll later]
      exact List.append_nil _
  | loose parts => exact kindsAll_outlinedAll parts

theorem kindsAll_outlinedAll (parts : List Outline) :
    kindsAll (outlinedAll parts) = Outline.tokensAll parts := by
  cases parts with
  | nil => rfl
  | cons part rest =>
      rw [outlinedAll, kindsAll_append, kindsAll_outlined part, kindsAll_outlinedAll rest]
      rfl

end

theorem evenBlocks_node {kind : NodeKind} {children : List Shape}
    (h : evenBlocksAll [.node (.node kind) children] = true) :
    (kind = .codeBlock → isBalanced (kindsAll children) = true) ∧
      evenBlocksAll children = true := by
  rw [evenBlocksAll, evenBlocksAll, Bool.and_true, evenBlocks, Bool.and_eq_true,
    Bool.or_eq_true] at h
  refine ⟨?_, h.2⟩
  rintro rfl
  exact h.1.resolve_left (by decide)

mutual

/-- A count goes over a neat outline as over the tokens that are not in its nodes. The induction is
on the outline: brackets of a node come in pairs, and blocks are balanced. -/
theorem nest_tokens (outline : Outline) (hneat : NeatOne outline)
    (heven : evenBlocksAll (outlined outline) = true) (depth : Nat) (rest : List TokenKind) :
    nest depth (outline.tokens ++ rest) = nest depth (direct outline ++ rest) := by
  cases outline with
  | token kind => rfl
  | error kind index => rfl
  | node kind parts =>
      obtain ⟨hblock, hparts⟩ := evenBlocks_node heven
      rw [NeatOne] at hneat
      split at hneat
      · have hbalanced := hblock ‹_›
        rw [kindsAll_outlinedAll] at hbalanced
        exact level_of_isBalanced hbalanced depth rest
      · obtain ⟨⟨-, hpaired, -⟩, hneat⟩ := hneat
        exact (nest_tokensAll parts hneat hparts depth rest).trans
          (level_directAll hpaired depth rest)
  | around kind first later =>
      obtain ⟨-, hparts⟩ := evenBlocks_node heven
      obtain ⟨⟨-, -, hpaired, -⟩, hfirst, hlater⟩ := hneat
      rw [evenBlocksAll_append, Bool.and_eq_true] at hparts
      calc nest depth (first.tokens ++ Outline.tokensAll later ++ rest)
        _ = nest depth (direct first ++ (Outline.tokensAll later ++ rest)) := by
            rw [List.append_assoc, nest_tokens first hfirst hparts.1]
        _ = nest depth (directAll (first :: later) ++ rest) := by
            rw [directAll, List.append_assoc]
            exact nest_append_congr (nest_tokensAll later hlater hparts.2 · rest) _ depth
        _ = nest depth rest := level_directAll hpaired depth rest
  | loose parts => exact nest_tokensAll parts hneat heven depth rest

theorem nest_tokensAll (parts : List Outline) (hneat : Neat parts)
    (heven : evenBlocksAll (outlinedAll parts) = true) (depth : Nat) (rest : List TokenKind) :
    nest depth (Outline.tokensAll parts ++ rest) = nest depth (directAll parts ++ rest) := by
  cases parts with
  | nil => rfl
  | cons part later =>
      rw [outlinedAll, evenBlocksAll_append, Bool.and_eq_true] at heven
      rw [Outline.tokensAll, directAll, List.append_assoc, List.append_assoc,
        nest_tokens part hneat.1 heven.1]
      exact nest_append_congr (nest_tokensAll later hneat.2 heven.2 · rest) _ depth

end

end PatternSyntax.Proofs.Parentheses
