import PatternSyntax.Proofs.Lambdas
import PatternSyntax.Proofs.Screens
import PatternSyntax.Proofs.TandemExpressions

/-!
Where a rule looks further ahead than at the next tokens, side by side on two texts: whether a
lambda expression begins, whether a parenthesis begins a cast, and whether a pattern follows
`instanceof`.
-/

namespace PatternSyntax.Proofs.Tandem

open Grammar
open PatternSyntax.Proofs.CleanExpressions
open PatternSyntax.Proofs.CleanRules
open PatternSyntax.Proofs.CleanRuns
open PatternSyntax.Proofs.Contract
open PatternSyntax.Proofs.Coverage
open PatternSyntax.Proofs.Depth
open PatternSyntax.Proofs.ExpressionRuns
open PatternSyntax.Proofs.Forward
open PatternSyntax.Proofs.Lambdas
open PatternSyntax.Proofs.Neatness
open PatternSyntax.Proofs.Operands
open PatternSyntax.Proofs.Parentheses
open PatternSyntax.Proofs.PatternGrammar
open PatternSyntax.Proofs.Casts
open PatternSyntax.Proofs.Runs
open PatternSyntax.Proofs.Screens
open PatternSyntax.Proofs.Shapes
open PatternSyntax.Proofs.Sources
open PatternSyntax.Proofs.Speculation
open PatternSyntax.Proofs.Totality
open PatternSyntax.Proofs.TypeRuns

variable {α β : Type} {b : Ends} {edge : Prop} {front : List Terminal} {r : Rules} {c : Cursor}
  {W : α → Prop} {depth : Nat}

theorem level_of_forall {kinds : List TokenKind} (h : ∀ kind ∈ kinds, isParenthesis kind = false) :
    Level kinds := by
  intro depth rest
  induction kinds with
  | nil => rfl
  | cons kind kinds ih =>
      obtain ⟨hkind, hkinds⟩ := List.forall_mem_cons.1 h
      cases kind with
      | openParen => cases hkind
      | closeParen => cases hkind
      | _ => exact ih hkinds

mutual

theorem evenBlocks_of_forall (shape : Shape)
    (h : ∀ kind ∈ kinds shape, isParenthesis kind = false) :
    evenBlocks shape = true := by
  cases shape with
  | token kind => rfl
  | node kind children =>
      have hlevel := level_of_forall h 0 []
      rw [kinds, List.append_nil] at hlevel
      have hbalanced : isBalanced (kindsAll children) = true := beq_iff_eq.2 hlevel
      rw [evenBlocks, hbalanced, Bool.or_true, Bool.true_and]
      exact evenBlocksAll_of_forall children h

theorem evenBlocksAll_of_forall (shapes : List Shape)
    (h : ∀ kind ∈ kindsAll shapes, isParenthesis kind = false) : evenBlocksAll shapes = true := by
  cases shapes with
  | nil => rfl
  | cons child rest =>
      obtain ⟨hchild, hrest⟩ := List.forall_mem_append.1 h
      rw [evenBlocksAll, evenBlocks_of_forall child hchild, evenBlocksAll_of_forall rest hrest]
      rfl

end

/-- An expression in parentheses stands here, and this is what they enclose. -/
structure Groups (c stop : Cursor) (inner : List Outline) : Prop where
  covers : Covers c [.node .parenthesizedExpression
    (.token .openParen :: (inner ++ [.token .closeParen]))] stop
  neat : Neat inner
  bare : brackets inner = []
  even : evenBlocksAll (outlinedAll inner) = true
  screened : screened (Outline.tokensAll inner) = true

theorem after_parenthesizedRow (hr : Careful r) (hs : Screening r)
    (hopen : nextKind c = some .openParen) :
    After (do
      bump
      orReport .expectedExpression r.expression
      expect .closeParen .expectedRParen) c fun _ parts _ => ∃ inner,
        parts = .token .openParen :: (inner ++ [.token .closeParen]) ∧ Neat inner ∧
          brackets inner = [] ∧ screened (Outline.tokensAll inner) = true := by
  refine after_bump_bind hopen fun mid _ => after_bind (P := fun _ inner _ =>
    Neat inner ∧ brackets inner = [] ∧ screened (Outline.tokensAll inner) = true)
      (fun done hrun hclean => ?_) fun _ inner _ hinner => after_expect.mono ?_
  · obtain ⟨hneat, hbare, -⟩ := clean_orReport (hr.expression mid) done hrun hclean
    exact ⟨hneat, hbare, shields_orReport (hs.conditional .lambda mid) done hrun⟩
  · rintro _ parts _ rfl
    exact ⟨inner, rfl, hinner⟩

theorem run_operand_openParen (hopen : nextKind c = some .openParen) :
    operand r c = (do return some (← parenthesized r) : Grammar (Option Outline)) c := by
  have hlook : operand r c = _ := look_bind (a := nextKind c) rfl
  rw [hlook, hopen]
  rfl

theorem encloses_operand_ident {done : Parsed (Option Outline)}
    (hident : nextKind c = some .ident) (hrun : operand r c = .ok done) :
    Encloses c done.cursor := by
  obtain ⟨stop, hpasses⟩ := exists_passes hident
  have hnamed : operand r c =
      .ok ⟨some (.node .referenceExpression [.token .ident]), [], stop⟩ := by
    have hlook : operand r c = _ := look_bind (a := nextKind c) rfl
    rw [hlook, hident]
    exact run_some (run_node hpasses.bump)
  cases hnamed.symm.trans hrun
  exact encloses_of_passes hpasses

theorem groups_of_operand {done : Parsed (Option Outline)}
    (hopen : nextKind c = some .openParen) (hrun : operand (.ofDepth depth) c = .ok done)
    (hsound : Sound MayFair done) : ∃ inner, Groups c done.cursor inner := by
  obtain ⟨answer, stop, hdeep, hanswers⟩ := finds_operand (c := c) (ready_ofDepth _)
    (Nat.le_refl _)
  cases ofDepth_agree operand_refines hdeep hrun
  obtain ⟨outline, rfl, hfair⟩ := hsound.value
  rw [run_operand_openParen hopen] at hrun
  obtain ⟨made, answered, hmade, hanswered, heq⟩ := exists_of_bind_ok hrun
  obtain ⟨captured, held, hcaptured, hheld, rfl⟩ := exists_of_bind_ok hmade
  obtain ⟨row, hrow, rfl⟩ := exists_of_capture_ok hcaptured
  cases hheld
  cases hanswered
  cases heq
  obtain ⟨inner, hparts, hneat, hbare, hscreened⟩ := after_parenthesizedRow
    (careful_ofDepth depth) (screening_ofDepth depth) hopen row hrow hfair.1
  have hcovers := hanswers.1.2
  have heven := hfair.parts.2
  dsimp only at hcovers heven ⊢
  rw [hparts] at hcovers heven
  rw [outlinedAll, outlinedAll_append, evenBlocksAll_append, evenBlocksAll_append,
    Bool.and_eq_true, Bool.and_eq_true] at heven
  exact ⟨inner, hcovers, hneat, hbare, heven.2.1, hscreened⟩

theorem Groups.encloses {stop : Cursor} {inner : List Outline} (h : Groups c stop inner) :
    Encloses c stop :=
  encloses_of_covers h.covers h.neat h.bare h.even

theorem Groups.clear {mid stop : Cursor} {inner : List Outline} (h : Groups c stop inner)
    (hopen : Passes .openParen c mid) : Clear mid := by
  have htokens := h.covers.tokens_append
  obtain ⟨index, glued, rest⟩ := hopen
  simp only [Outline.tokensAll, Outline.tokens, tokensAll_append, List.map_cons, List.cons_append,
    List.append_assoc, List.cons.injEq, true_and, List.append_nil, List.nil_append] at htokens
  rw [Clear, ← htokens]
  exact screened_append h.screened (screened_cons rfl)

theorem exists_rest {V : α → Prop} {g : Grammar α} {done : Parsed α}
    (hg : ∀ b, Tracks b False V g front) (hc : c.rest = front ++ b.left) (hrun : g c = .ok done)
    (hsound : Sound V done) : ∃ mid, done.cursor.rest = mid ++ b.left := by
  obtain ⟨mid, htwins, -⟩ := (hg ⟨b.left, b.left, b.left_tail, b.left_tail⟩).same ⟨hc, hc⟩
    hrun hrun hsound
  exact ⟨mid, htwins.left⟩

/-- Where it depends on what comes behind the tokens whether a lambda expression begins, its
parameters, or what could be its parameters, reach to the end of the tokens. -/
theorem rest_of_encloses {stop : Cursor} {mid : List Terminal} (h : Encloses c stop)
    (hc : c.rest = front ++ b.left) (hstop : stop.rest = mid ++ b.left)
    (hdiffer : isLambda (front ++ b.left) ≠ isLambda (front ++ b.right)) :
    stop.rest = b.left := by
  obtain ⟨passed, hrest, hpassed⟩ := h
  rw [hc, hstop, ← List.append_assoc, List.append_cancel_right_eq] at hrest
  rw [hrest, List.append_assoc, List.append_assoc, hpassed, hpassed] at hdiffer
  cases mid with
  | nil => exact hstop
  | cons terminal mid => exact absurd rfl hdiffer

theorem isLambda_tail {back : List Terminal} (h : Tail back) : isLambda back = false := by
  cases h with
  | nil => rfl
  | colon => rfl
  | arrow => rfl

theorem exists_cons_of_isLambda {back : List Terminal} (hback : Tail back)
    (h : isLambda (front ++ back) = true) : ∃ terminal mid, front = terminal :: mid := by
  cases front with
  | cons terminal mid => exact ⟨terminal, mid, rfl⟩
  | nil => cases (isLambda_tail hback).symm.trans h

theorem primary_of_isLambda (h : isLambda c.rest = true) :
    primary r .lambda c = (do return some (← lambda r) : Grammar (Option Outline)) c := by
  have hlook : primary r .lambda c = _ := look_bind (a := c.rest) rfl
  rw [hlook, h]
  rfl

theorem primary_of_not_isLambda (h : isLambda c.rest = false) :
    primary r .lambda c = grow (operand r) (selectorTurn r) c := by
  have hlook : primary r .lambda c = _ := look_bind (a := c.rest) rfl
  rw [hlook, h]
  rfl

section Rules

variable (hr : InTandem (.ofDepth depth))

include hr

theorem spoilsAt_lambda (hc : c.rest = front ++ b.left)
    (hlambda : isLambda (front ++ b.left) = true)
    (hdiffer : isLambda (front ++ b.left) ≠ isLambda (front ++ b.right)) :
    SpoilsAt Fair (lambda (.ofDepth depth)) c := by
  obtain ⟨terminal, mid, rfl⟩ := exists_cons_of_isLambda b.left_tail hlambda
  refine spoilsAt_node (spoilsAt_bind fun first hfirst hfront => ?_)
  by_cases hfair : Fair first.value
  · refine spoilsAt_bind fun placed hplaced _ => ?_
    cases hplaced
    obtain ⟨later, hlater⟩ := exists_rest (fun b => tracks_lambdaParameters hr) hc hfirst
      ⟨hfront, hfair⟩
    obtain ⟨children, houtlined, hencloses⟩ :=
      leadsToArrow_of_run (hc ▸ hlambda) hfirst hfair.1
    have heven : evenBlocksAll children = true := by
      have hboth := hfair.2
      rw [houtlined] at hboth
      exact (evenBlocks_node hboth).2
    exact spoilsAt_lambdaTail hr
      (rest_of_encloses (hencloses heven) hc hlater hdiffer ▸ b.left_tail)
  · exact spoils_before (spoils_put hfair) _

/-- If an arrow behind the tokens would make a lambda expression, then without it an operand reaches
to their end. -/
theorem rest_of_operand {done : Parsed (Option Outline)} (hc : c.rest = front ++ b.left)
    (hlambda : isLambda (front ++ b.right) = true)
    (hdiffer : isLambda (front ++ b.left) ≠ isLambda (front ++ b.right))
    (hrun : operand (.ofDepth depth) c = .ok done) (hsound : Sound MayFair done) :
    done.cursor.rest = b.left := by
  obtain ⟨mid, hmid⟩ := exists_rest (fun b => tracks_operand hr) hc hrun hsound
  refine rest_of_encloses ?_ hc hmid hdiffer
  obtain ⟨terminal, later, rfl⟩ := exists_cons_of_isLambda b.right_tail hlambda
  have hnext : nextKind c = some terminal.kind := by
    rw [nextKind, hc]
    rfl
  rcases nextKind_of_isLambda (c := ⟨0, terminal :: later ++ b.right⟩) hlambda with hident | hopen
  · exact encloses_operand_ident (hnext.trans hident) hrun
  · obtain ⟨inner, hgroups⟩ := groups_of_operand (hnext.trans hopen) hrun hsound
    exact hgroups.encloses

theorem rest_of_operation {done : Parsed (Option Outline)} (hc : c.rest = front ++ b.left)
    (hlambda : isLambda (front ++ b.right) = true)
    (hdiffer : isLambda (front ++ b.left) ≠ isLambda (front ++ b.right))
    (hrun : grow (operand (.ofDepth depth)) (selectorTurn (.ofDepth depth)) c = .ok done)
    (hsound : Sound MayFair done) : done.cursor.rest = b.left := by
  obtain ⟨first, second, hfirst, hsecond, rfl⟩ := exists_of_bind_ok hrun
  obtain ⟨hsound₁, hsound₂⟩ := sound_of_bind (V := MayFair)
    (spoils_grown fun _ => spoils_selectorTurn) hsecond hsound
  have hmid := rest_of_operand hr hc hlambda hdiffer hfirst hsound₁
  have hgrown : Tracks b False MayFair (grown (selectorTurn (.ofDepth depth)) first.value) [] :=
    tracks_grown (fun _ => spoils_selectorTurn) (fun subject _ => tracks_selectorTurn hr subject)
      hsound₁.value
  have hstays := hgrown.stays rfl hmid hsecond hsound₂
  exact hstays

theorem tracks_operation (front : List Terminal) :
    Tracks b False MayFair (grow (operand (.ofDepth depth)) (selectorTurn (.ofDepth depth)))
      front :=
  tracks_grow (tracks_operand hr) (fun _ => spoils_selectorTurn) fun subject _ =>
    tracks_selectorTurn hr subject

theorem tracks_primary (arrow : ArrowRole) :
    Tracks b (arrow = .lambda) MayFair (primary (.ofDepth depth) arrow) front := by
  cases arrow with
  | terminator =>
      exact tracks_look_of (fun c _ => ⟨c.rest, rfl, rfl⟩) (tracks_operation hr front).closed
  | lambda =>
      cases hleft : isLambda (front ++ b.left) with
      | true =>
          obtain ⟨terminal, mid, rfl⟩ := exists_cons_of_isLambda b.left_tail hleft
          cases hright : isLambda (terminal :: mid ++ b.right) with
          | true =>
              refine tracks_look_of (fun c hc => ⟨c.rest, rfl, ?_⟩)
                (tracks_some ((tracks_lambda hr).mono fun _ => rfl))
              rcases hc with hc | hc
              · rw [hc, hleft]
                rfl
              · rw [hc, hright]
                rfl
          | false =>
              refine tracks_of_spoilsAt fun c hc done hrun => ?_
              rw [primary_of_isLambda (hc ▸ hleft)] at hrun
              exact spoilsAt_some (spoilsAt_lambda hr hc hleft (by rw [hleft, hright]; decide))
                done hrun
      | false =>
          refine ⟨fun {c c' done done'} htwins hrun hrun' hsound => ?_,
            fun {c done} hfront hrest hrun hsound => ?_⟩
          · rw [primary_of_not_isLambda (htwins.left ▸ hleft)] at hrun
            cases hright : isLambda (front ++ b.right) with
            | true => exact .inr ⟨rfl, rest_of_operation hr htwins.left hright
                (by rw [hleft, hright]; decide) hrun hsound⟩
            | false =>
                rw [primary_of_not_isLambda (htwins.right ▸ hright)] at hrun'
                exact (tracks_operation hr front).closed.runs htwins hrun hrun' hsound
          · subst hfront
            rw [primary_of_not_isLambda (hrest ▸ hleft)] at hrun
            exact (tracks_operation hr []).stays rfl hrest hrun hsound

end Rules

end PatternSyntax.Proofs.Tandem
