import PatternSyntax.Proofs.TandemRules

/-!
The rules for expressions, side by side on two texts.
-/

namespace PatternSyntax.Proofs.Tandem

open Grammar
open PatternSyntax.Proofs.Contract
open PatternSyntax.Proofs.Coverage
open PatternSyntax.Proofs.ExpressionRuns
open PatternSyntax.Proofs.Forward
open PatternSyntax.Proofs.Operands
open PatternSyntax.Proofs.PatternGrammar
open PatternSyntax.Proofs.Runs
open PatternSyntax.Proofs.Speculation
open PatternSyntax.Proofs.Totality
open PatternSyntax.Proofs.TypeRuns

variable {α β : Type} {b : Ends} {edge : Prop} {front : List Terminal} {r : Rules} {c : Cursor}
  {W : α → Prop}

theorem rest_of_bump {done : Parsed Unit} (htail : Tail c.rest) (hrun : bump c = .ok done) :
    done.cursor.rest = [] := by
  obtain ⟨index, rest⟩ := c
  cases htail with
  | nil =>
      cases hrun
      rfl
  | colon =>
      cases hrun
      rfl
  | arrow =>
      cases hrun
      rfl

theorem tail_of_eat {kind : TokenKind} {done : Parsed Bool} (htail : Tail c.rest)
    (hrun : eat kind c = .ok done) : Tail done.cursor.rest := by
  obtain ⟨first, second, hfirst, hsecond, rfl⟩ := exists_of_bind_ok hrun
  cases hfirst
  split at hsecond
  · obtain ⟨passed, last, hpassed, hlast, rfl⟩ := exists_of_bind_ok hsecond
    cases hlast
    rw [rest_of_bump htail hpassed]
    exact .nil
  · cases hsecond
    exact htail

theorem barren_next (h : Barren r) : Barren r.next where
  unary arrow c htail done hrun := by
    have hnone : Grammar.unary r arrow c = .ok ⟨none, [], c⟩ := by
      obtain ⟨index, rest⟩ := c
      cases htail with
      | nil => rfl
      | colon => cases arrow <;> rfl
      | arrow => cases arrow <;> rfl
    cases hnone.symm.trans hrun
    rfl
  binary level arrow c htail done hrun := by
    obtain ⟨first, second, hfirst, hsecond, rfl⟩ := exists_of_bind_ok hrun
    rw [h.unary arrow c htail first hfirst] at hsecond
    cases hsecond
    rfl
  conditional arrow c htail done hrun := by
    obtain ⟨first, second, hfirst, hsecond, rfl⟩ := exists_of_bind_ok hrun
    rw [h.binary 0 arrow c htail first hfirst] at hsecond
    cases hsecond
    rfl

theorem barren_ofDepth (depth : Nat) : Barren (.ofDepth depth) := by
  induction depth with
  | zero => exact ⟨fun _ _ _ => nofun, fun _ _ _ _ => nofun, fun _ _ _ => nofun⟩
  | succ depth ih => exact barren_next ih

theorem spoilsAt_blockTurns {V : Nat → Prop} (limit level : Nat) (c : Cursor)
    (htail : Tail c.rest) :
    SpoilsAt V (iterateWithin blockTurn limit level) c := by
  induction limit generalizing level c with
  | zero => exact spoils_fail c
  | succ limit ih =>
      obtain ⟨index, rest⟩ := c
      have hpass {terminal : Terminal} (hturn : blockTurn level ⟨index, [terminal]⟩ =
          .ok ⟨.yield level, [.token terminal.kind], ⟨index + 1, []⟩⟩) :
          SpoilsAt V (iterateWithin blockTurn (limit + 1) level) ⟨index, [terminal]⟩ := by
        refine spoilsAt_bind fun first hfirst _ => ?_
        cases hturn.symm.trans hfirst
        exact ih level _ .nil
      cases htail with
      | nil => exact spoilsAt_before (spoilsAt_look rfl (spoils_before spoils_report _))
      | colon glued => exact hpass rfl
      | arrow glued => exact hpass rfl

theorem tracks_blockTurn {terminal : Terminal} {mid : List Terminal} (level : Nat) :
    Tracks b False (fun _ => True) (blockTurn level) (terminal :: mid) := by
  refine tracks_look (a := some terminal.kind) (fun c hc => ?_) ?_
  · obtain ⟨back, -, hrest⟩ := Ends.tail_of_or hc
    simp only [next, ahead, hrest]
    rfl
  · split
    · cases ‹some _ = none›
    · exact tracks_bump_bind (tracks_pure _)
    · refine tracks_bump_bind ?_
      cases level with
      | zero => exact tracks_pure _
      | succ level => exact tracks_pure _
    · exact tracks_bump_bind (tracks_pure _)

theorem tracks_codeBlock {terminal : Terminal} {mid : List Terminal} :
    Tracks b False Fair codeBlock (terminal :: mid) := by
  unfold codeBlock
  refine tracks_node (tracks_bump_bind (tracks_seq (tracks_iterate_of fun limit => ?_)
    fun _ _ => tracks_pure _))
  generalize 0 = level
  induction limit generalizing level mid with
  | zero => exact tracks_of_spoils spoils_fail
  | succ limit ih =>
      cases mid with
      | nil => exact tracks_of_spoilsAt fun c hc => spoilsAt_blockTurns _ _ c (hc ▸ b.left_tail)
      | cons terminal mid =>
          refine tracks_seq (tracks_blockTurn level) fun next later => ?_
          cases next with
          | done level => exact tracks_pure _
          | yield level => exact ih level

theorem spoils_grown {turn : Outline → Grammar (ForInStep Outline)} {found : Option Outline}
    (hspoils : ∀ subject, ¬Fair subject → Spoils (Turn Fair Fair) (turn subject))
    (h : ¬MayFair found) : Spoils MayFair (grown turn found) := by
  cases found with
  | none => exact spoils_pure not_mayFair_none
  | some first =>
      exact spoils_bind_of (spoils_iterate hspoils (mt mayFair_some.2 h)) fun _ h =>
        spoils_pure (mt mayFair_some.1 h)

theorem tracks_grown {turn : Outline → Grammar (ForInStep Outline)} {found : Option Outline}
    (hspoils : ∀ subject, ¬Fair subject → Spoils (Turn Fair Fair) (turn subject))
    (hturn : ∀ subject mid, Tracks b edge (Turn Fair Fair) (turn subject) mid)
    (hfound : MayFair found) : Tracks b edge MayFair (grown turn found) front := by
  obtain ⟨first, rfl, hfirst⟩ := hfound
  exact tracks_some (tracks_iterate hspoils (fun subject mid _ => hturn subject mid) hfirst)

theorem tracks_grow {g : Grammar (Option Outline)} {turn : Outline → Grammar (ForInStep Outline)}
    (hg : Tracks b edge MayFair g front)
    (hspoils : ∀ subject, ¬Fair subject → Spoils (Turn Fair Fair) (turn subject))
    (hturn : ∀ subject mid, Tracks b edge (Turn Fair Fair) (turn subject) mid) :
    Tracks b edge MayFair (grow g turn) front :=
  tracks_bind hg (fun _ => spoils_grown hspoils) fun _ _ => tracks_grown hspoils hturn

section Rules

variable (hr : InTandem r)

include hr

theorem tracks_arguments {terminal : Terminal} {mid : List Terminal} :
    Tracks b False Fair (arguments r) (terminal :: mid) := by
  unfold arguments
  exact tracks_node (tracks_bump_bind (tracks_ifAt (by decide)
    (fun _ _ _ => tracks_expect (by decide)) fun _ => tracks_closed (by decide)
      (tracks_repeatWhile fun mid =>
        tracks_found_or (hr.expression b mid) fun _ => tracks_eat (by decide))))

theorem tracks_valueTurn : Tracks b True (fun _ => True) (valueTurn r) front := by
  refine tracks_isAhead (by decide) (tracks_isAtEnd fun atEnd => tracks_ite
    (fun _ => tracks_pure _) fun _ =>
      tracks_ifAt (by decide) (fun glued mid hfront => ?_) fun _ => ?_)
  · rw [hfront]
    exact tracks_found_bind (hr.arrayInitializer b _ mid).closed fun _ => tracks_eat (by decide)
  · exact tracks_found_or (hr.expression b front) fun _ => tracks_eat (by decide)

theorem tracks_arrayInitializer (terminal : Terminal) (mid : List Terminal) :
    Tracks b False Fair (Grammar.arrayInitializer r) (terminal :: mid) := by
  unfold Grammar.arrayInitializer
  exact tracks_node (tracks_bump_bind (tracks_closed (by decide) (tracks_repeatWhile
    fun _ => tracks_valueTurn hr)))

theorem tracks_dimensionTurn : Tracks b False (fun _ => True) (dimensionTurn r) front := by
  refine tracks_seq (tracks_eat (by decide)) fun opened mid => tracks_ite (fun _ => ?_)
    fun _ => tracks_pure _
  refine tracks_ifAt (by decide) (fun _ _ _ => ?_) fun _ => ?_
  · exact tracks_seq (tracks_expect (by decide)) fun _ _ => tracks_pure _
  · exact tracks_closed_bind (by decide) (tracks_orReport (hr.expression b mid))
      fun _ => tracks_pure _

theorem tracks_newArray {V : Unit → Prop} : Tracks b False V (newArray r) front := by
  unfold newArray
  refine tracks_seq (tracks_repeatWhile fun _ => tracks_dimensionTurn hr) fun _ mid =>
    tracks_ifAt (by decide) (fun glued later hmid => ?_) fun _ => tracks_pure _
  rw [hmid]
  exact tracks_found (hr.arrayInitializer b _ later)

theorem tracks_newTail (isPrimitive : Bool) {V : Unit → Prop} :
    Tracks b False V (newTail r isPrimitive) front := by
  refine tracks_ifAt (by decide) (fun _ _ _ => tracks_newArray hr) fun _ =>
    tracks_isAhead (by decide) (tracks_ite (fun hat => ?_) fun _ => tracks_of_spoils spoils_report)
  cases front with
  | nil => cases (Bool.and_eq_true_iff.1 hat).2
  | cons terminal mid =>
      refine tracks_found_bind (tracks_arguments hr) fun later => tracks_ifAt (by decide)
        (fun glued last hlater => ?_) fun _ => tracks_pure _
      rw [hlater]
      exact tracks_found tracks_codeBlock

theorem tracks_newExpression {terminal : Terminal} {mid : List Terminal} :
    Tracks b False Fair (newExpression r) (terminal :: mid) := by
  refine tracks_node (tracks_bump_bind (tracks_next (fun kind glued later hmid => ?_) fun _ =>
    ⟨tracks_of_spoils spoils_report, rfl, rfl⟩))
  rw [hmid]
  refine tracks_ite (fun _ => ?_) fun _ => tracks_ite (fun _ => ?_)
    fun _ => tracks_of_spoils spoils_report
  · exact tracks_found_bind (tracks_node tracks_bump) fun _ => tracks_newTail hr true
  · exact tracks_found_bind (tracks_codeReference hr _ _) fun _ => tracks_newTail hr false

theorem tracks_operand : Tracks b False MayFair (operand r) front := by
  refine tracks_next (fun kind glued mid hfront => ?_) fun _ => ⟨tracks_pure _, rfl, rfl⟩
  rw [hfront]
  have hbump {kind : NodeKind} : Tracks b False MayFair (do return some (← node kind bump))
      (⟨‹TokenKind›, glued⟩ :: mid) := tracks_some (tracks_node tracks_bump)
  refine tracks_ite (fun _ => hbump) fun _ => tracks_ite (fun _ => hbump) fun _ => tracks_ite
    (fun _ => hbump) fun _ => tracks_ite (fun _ => hbump) fun _ => tracks_ite (fun _ => ?_)
      fun _ => tracks_ite (fun _ => ?_) fun _ => tracks_ite (fun hprimitive => ?_)
        fun _ => tracks_pure _
  · exact tracks_some (tracks_node (tracks_bump_bind (tracks_closed (by decide)
      (tracks_orReport (hr.expression b mid)))))
  · exact tracks_some (tracks_newExpression hr)
  · have hmembers : ∀ mid, Tracks b False (fun _ => True) (expect .dot .expectedExpression >>=
        fun _ => expect .classKw .expectedIdentifier) mid :=
      fun _ => tracks_seq (tracks_expect (by decide)) fun _ _ => tracks_expect (by decide)
    refine tracks_some (tracks_node (tracks_bind_at (hr.type b .plain _)
      (fun c first hc hrun h => ?_) (fun found later hfound => ?_) nofun))
    · cases hvalue : first.value with
      | none =>
          refine absurd hvalue (hr.primitive .plain c first kind ?_ hprimitive hrun)
          rw [nextKind, hc]
          rfl
      | some type =>
          rw [hvalue] at h
          exact spoils_before (spoils_put (mt mayFair_some.2 h))
    · obtain ⟨type, rfl, -⟩ := hfound
      exact tracks_put_bind (hmembers later)

omit hr in
theorem spoils_selectorTurn {subject : Outline} (h : ¬Fair subject) :
    Spoils (Turn Fair Fair) (selectorTurn r subject) := by
  have hyield {kind : NodeKind} {g : Grammar Unit} :
      Spoils (Turn Fair Fair) (do return .yield (← around kind subject g)) :=
    spoils_yield (spoils_around h)
  refine spoils_bind fun _ => spoils_ite (spoils_bind fun _ => spoils_ite hyield
    (spoils_bind fun _ => spoils_ite hyield (spoils_done (spoils_around h)))) ?_
  exact spoils_bind fun _ => spoils_ite hyield (spoils_bind fun _ => spoils_ite hyield
    (spoils_pure h))

theorem tracks_selectorTurn (subject : Outline) :
    Tracks b False (Turn Fair Fair) (selectorTurn r subject) front := by
  refine tracks_ifAt (by decide) (fun glued mid hfront => ?_) fun _ => tracks_isAhead (by decide)
    (tracks_ite (fun hat => ?_) fun _ => tracks_ifAt (by decide) (fun glued mid hfront => ?_)
      fun _ => tracks_pure _)
  · have hmember {kind : TokenKind} {made : NodeKind} (hkind : Inner kind)
        {no : Grammar (ForInStep Outline)} (hno : Tracks b False (Turn Fair Fair) no front) :
        Tracks b False (Turn Fair Fair) (isAhead 1 kind >>= fun found =>
          if found = true then (do return .yield (← member made subject)) else no) front := by
      refine tracks_isAhead hkind (tracks_ite (fun hat => ?_) fun _ => hno)
      rw [hfront] at hat ⊢
      cases mid with
      | nil => cases hat
      | cons terminal mid => exact tracks_yield (tracks_around (tracks_bump_bind tracks_bump))
    exact hmember (by decide) (hmember (by decide) (tracks_done (tracks_around
      (tracks_of_spoils (spoils_bind fun _ => spoils_report)))))
  · cases front with
    | nil => cases (Bool.and_eq_true_iff.1 hat).2
    | cons terminal mid => exact tracks_yield (tracks_around (tracks_found (tracks_arguments hr)))
  · rw [hfront]
    exact tracks_yield (tracks_around (tracks_bump_bind (tracks_closed (by decide)
      (tracks_orReport (hr.expression b mid)))))

omit hr in
theorem spoils_postfixTurn {subject : Outline} (h : ¬Fair subject) :
    Spoils (Turn Fair Fair) (postfixTurn subject) :=
  spoils_bind fun _ => spoils_bind fun _ => spoils_ite (spoils_yield (spoils_around h))
    (spoils_pure h)

omit hr in
theorem tracks_postfixTurn (subject : Outline) :
    Tracks b edge (Turn Fair Fair) (postfixTurn subject) front := by
  refine tracks_isAhead (by decide) (tracks_isAhead (by decide) (tracks_ite (fun hat => ?_)
    fun _ => tracks_pure _))
  cases front with
  | nil => cases hat
  | cons terminal mid => exact tracks_yield (tracks_around tracks_bump)

theorem tracks_castTarget (isPrimitive : Bool) {mid : List Terminal} :
    Tracks b False (· = true) (castTarget r isPrimitive) mid := by
  refine tracks_bind (hr.type b .plain mid) (fun found h => ?_) fun found later hfound => ?_
  · cases found with
    | none => exact spoils_pure Bool.false_ne_true
    | some type => exact spoils_before (spoils_put (mt mayFair_some.2 h))
  · obtain ⟨type, rfl, -⟩ := hfound
    refine tracks_put_bind (tracks_isAhead (by decide) (tracks_look_of (fun c hc =>
      ⟨c.rest[1]?.map (·.kind), rfl, ?_⟩) (tracks_pure
        ((kindAt 0 later == some .closeParen) && !type.hasError && (kindAt 1 later).any
          (TokenKind.startsCastOperand isPrimitive)))))
    obtain ⟨back, hback, hrest⟩ := Ends.tail_of_or hc
    have hoperand := any_kindAt_append hback (p := TokenKind.startsCastOperand
      isPrimitive) ⟨rfl, rfl⟩ 1 later
    rw [← hoperand, ← hrest]
    rfl

theorem tracks_castType {terminal : Terminal} {mid : List Terminal} :
    Tracks b False (· = true) (castType r) (terminal :: mid) := by
  refine tracks_bump_bind (tracks_look_of (fun c hc => ⟨nextKind c, rfl, ?_⟩)
    (tracks_castTarget hr ((kindAt 0 mid).any TokenKind.isPrimitiveType)))
  obtain ⟨back, hback, hrest⟩ := Ends.tail_of_or hc
  rw [← any_kindAt_append hback ⟨rfl, rfl⟩, ← hrest]
  rfl

theorem tracks_cast (arrow : ArrowRole) {terminal : Terminal} {mid : List Terminal} :
    Tracks b (arrow = .lambda) MayFair (cast r arrow) (terminal :: mid) := by
  unfold Grammar.cast
  refine tracks_attempt (tracks_bind (tracks_capture (tracks_castType hr)).closed
    (fun captured h => ?_) fun captured later hcaptured => ?_)
  · obtain ⟨isCast, parts⟩ := captured
    cases isCast with
    | false => exact spoils_pure not_mayFair_none
    | true =>
        have hparts : Spoils (fun _ => True) (putAll parts >>= fun _ => bump >>= fun _ =>
            orReport .expectedExpression (r.unary arrow)) :=
          spoils_before (spoils_putAll fun hfair => h ⟨rfl, hfair⟩)
        exact spoils_bind_of (spoils_node hparts) fun _ h => spoils_pure (mt mayFair_some.1 h)
  · obtain ⟨isCast, parts⟩ := captured
    cases hcaptured.1
    refine tracks_some (tracks_node (tracks_putAll_bind ?_))
    cases later with
    | nil =>
        refine tracks_of_spoilsAt fun c hc => spoilsAt_bind fun first hfirst _ =>
          spoilsAt_orReport (spoilsAt_of_none (hr.barren.unary arrow _ ?_))
        rw [rest_of_bump (hc ▸ b.left_tail) hfirst]
        exact .nil
    | cons terminal later => exact tracks_bump_bind (tracks_orReport (hr.unary b arrow later))

theorem tracks_lambdaParameter : Tracks b False Fair (lambdaParameter r) front := by
  refine tracks_node (tracks_isAhead (by decide) (tracks_isAhead (by decide) (tracks_isAhead
    (by decide) (tracks_ite (fun hat => ?_) fun _ => ?_))))
  · cases front with
    | nil => cases (Bool.and_eq_true_iff.1 hat).1
    | cons terminal mid => exact tracks_bump
  · exact tracks_found_bind (tracks_modifierList hr) fun mid => tracks_seq (tracks_orReport
      (hr.type b _ mid)) fun _ _ => tracks_expect (by decide)

theorem tracks_lambdaParameters {terminal : Terminal} {mid : List Terminal} :
    Tracks b False Fair (lambdaParameters r) (terminal :: mid) := by
  unfold lambdaParameters
  refine tracks_node (tracks_isAhead (by decide) (tracks_ite (fun _ => ?_) fun _ => ?_))
  · exact tracks_found (tracks_node tracks_bump)
  · refine tracks_bump_bind (tracks_ifAt (by decide) (fun _ _ _ => tracks_expect (by decide))
      fun _ => tracks_closed (by decide) (tracks_repeatWhile fun _ => ?_))
    exact tracks_found_bind (tracks_lambdaParameter hr).closed fun _ => tracks_eat (by decide)

theorem spoilsAt_lambdaTail {V : Unit → Prop} (htail : Tail c.rest) :
    SpoilsAt V (lambdaTail r) c := by
  refine spoilsAt_bind fun first hfirst _ => ?_
  have hmid := tail_of_eat htail hfirst
  refine spoilsAt_look rfl (spoilsAt_ite (fun hat => ?_) fun _ =>
    spoilsAt_orReport (spoilsAt_of_none (hr.barren.conditional _ _ hmid)))
  exact absurd (beq_iff_eq.1 hat) (nextKind_ne_of_tail (by decide) hmid)

theorem tracks_lambdaTail {V : Unit → Prop} : Tracks b True V (lambdaTail r) front := by
  cases front with
  | nil => exact tracks_of_spoilsAt fun c hc => spoilsAt_lambdaTail hr (hc ▸ b.left_tail)
  | cons terminal mid =>
      refine tracks_seq tracks_eat_cons fun _ later => tracks_ifAt (by decide)
        (fun glued last hlater => ?_) fun _ => tracks_orReport (hr.expression b later)
      rw [hlater]
      exact tracks_found tracks_codeBlock.closed

theorem tracks_lambda {terminal : Terminal} {mid : List Terminal} :
    Tracks b True Fair (lambda r) (terminal :: mid) :=
  tracks_node (tracks_found_bind (tracks_lambdaParameters hr).closed fun _ =>
    tracks_lambdaTail hr)

theorem spoilsAt_alternative {arrow : ArrowRole} {V : Unit → Prop} (htail : Tail c.rest) :
    SpoilsAt V (alternative r arrow) c := by
  refine spoilsAt_bind fun first hfirst hfair =>
    spoilsAt_orReport (spoilsAt_of_none (hr.barren.conditional _ _ ?_))
  obtain ⟨eaten, later, heaten, hlater, rfl⟩ := exists_of_bind_ok hfirst
  have hmid := tail_of_eat htail heaten
  split at hlater
  · cases hlater
    exact hmid
  · cases hlater
    exact hmid

theorem tracks_conditional (arrow : ArrowRole) :
    Tracks b (arrow = .lambda) MayFair (Grammar.conditional r arrow) front := by
  refine tracks_bind (hr.binary b 0 arrow front) (fun found h => ?_) fun found mid hfound => ?_
  · cases found with
    | none => exact spoils_pure not_mayFair_none
    | some condition =>
        have hunfair := mt mayFair_some.2 h
        exact spoils_bind fun _ => spoils_ite (spoils_bind_of (spoils_around hunfair) fun _ h =>
          spoils_pure (mt mayFair_some.1 h)) (spoils_pure h)
  · obtain ⟨condition, rfl, -⟩ := hfound
    refine tracks_ifAt (by decide) (fun glued later hmid => ?_) fun _ => tracks_pure _
    rw [hmid]
    refine tracks_some (tracks_around (tracks_bump_bind (tracks_bind_of
      (tracks_orReport (hr.expression b later)) (fun _ h => absurd trivial h) (fun _ last _ => ?_)
        fun _ => .inr fun _ c _ hrest => spoilsAt_alternative hr (hrest ▸ b.left_tail))))
    cases last with
    | nil => exact tracks_of_spoilsAt fun c hc => spoilsAt_alternative hr (hc ▸ b.left_tail)
    | cons terminal last =>
        exact tracks_seq tracks_expect_cons fun _ mid =>
          tracks_orReport (hr.conditional b arrow mid)

end Rules

end PatternSyntax.Proofs.Tandem
