import PatternSyntax.Proofs.ExpressionRuns
import PatternSyntax.Proofs.Speculation
import PatternSyntax.Proofs.Tandem

/-!
The rules, side by side on two texts.
-/

namespace PatternSyntax.Proofs.Tandem

open Grammar
open PatternSyntax.Proofs.Contract
open PatternSyntax.Proofs.Coverage
open PatternSyntax.Proofs.ExpressionRuns
open PatternSyntax.Proofs.Forward
open PatternSyntax.Proofs.Operands
open PatternSyntax.Proofs.PatternGrammar
open PatternSyntax.Proofs.Runs
open PatternSyntax.Proofs.Speculation
open PatternSyntax.Proofs.Totality
open PatternSyntax.Proofs.TypeRuns

/-- Behind the tokens the rules of a table find no expression. -/
structure Barren (r : Rules) : Prop where
  unary (arrow : ArrowRole) (c : Cursor) :
    Tail c.rest → ∀ done, r.unary arrow c = .ok done → done.value = none
  binary (level : Nat) (arrow : ArrowRole) (c : Cursor) :
    Tail c.rest → ∀ done, r.binary level arrow c = .ok done → done.value = none
  conditional (arrow : ArrowRole) (c : Cursor) :
    Tail c.rest → ∀ done, r.conditional arrow c = .ok done → done.value = none

/-- The lookahead for patterns sees one here, and runs into nothing unfair. -/
def Asks (r : Rules) (c : Cursor) : Prop :=
  ∃ seen, probe r c = .ok seen ∧ Sound (· = true) seen

/-- The rules of a table do the same in two texts. A rule that may read a lambda expression may also
get to the end of the tokens. -/
structure InTandem (r : Rules) : Prop where
  annot (b : Ends) (terminal : Terminal) (mid : List Terminal) :
    Tracks b False Fair r.annot (terminal :: mid)
  arrayInitializer (b : Ends) (terminal : Terminal) (mid : List Terminal) :
    Tracks b False Fair r.arrayInitializer (terminal :: mid)
  type (b : Ends) (flags : TypeFlags) (front : List Terminal) :
    Tracks b False MayFair (r.type flags) front
  pattern (b : Ends) (front : List Terminal) : Tracks b False Fair r.pattern front
  unary (b : Ends) (arrow : ArrowRole) (front : List Terminal) :
    Tracks b (arrow = .lambda) MayFair (r.unary arrow) front
  binary (b : Ends) (level : Nat) (arrow : ArrowRole) (front : List Terminal) :
    Tracks b (arrow = .lambda) MayFair (r.binary level arrow) front
  conditional (b : Ends) (arrow : ArrowRole) (front : List Terminal) :
    Tracks b (arrow = .lambda) MayFair (r.conditional arrow) front
  barren : Barren r
  primitive (flags : TypeFlags) (c : Cursor) (done : Parsed (Option Outline)) (kind : TokenKind) :
    nextKind c = some kind → kind.isPrimitiveType = true → r.type flags c = .ok done →
      done.value ≠ none
  asks (c : Cursor) : ¬Asks r c → SpoilsAt Fair r.pattern c

variable {α β : Type} {b : Ends} {edge : Prop} {front : List Terminal} {r : Rules} {c : Cursor}
  {W : α → Prop}

theorem InTandem.expression (hr : InTandem r) (b : Ends) (front : List Terminal) :
    Tracks b True MayFair r.expression front :=
  (hr.conditional b .lambda front).mono fun _ => trivial

theorem tracks_yield {g : Grammar Outline} (hg : Tracks b edge Fair g front) :
    Tracks b edge (Turn Fair Fair) (do return .yield (← g)) front :=
  tracks_bind hg (fun _ h => spoils_pure h) fun _ _ _ => tracks_pure _

theorem tracks_done {g : Grammar Outline} (hg : Tracks b edge Fair g front) :
    Tracks b edge (Turn Fair Fair) (do return .done (← g)) front :=
  tracks_bind hg (fun _ h => spoils_pure h) fun _ _ _ => tracks_pure _

theorem spoils_yield {g : Grammar Outline} (hg : Spoils Fair g) :
    Spoils (Turn Fair Fair) (do return .yield (← g)) :=
  spoils_bind_of hg fun _ h => spoils_pure h

theorem spoils_done {g : Grammar Outline} (hg : Spoils Fair g) :
    Spoils (Turn Fair Fair) (do return .done (← g)) :=
  spoils_bind_of hg fun _ h => spoils_pure h

theorem tracks_found_or {g : Grammar (Option Outline)} {missing : ErrorKind} {a : α}
    {f : Grammar α} (hg : Tracks b edge MayFair g front) (hf : ∀ mid, Tracks b edge W f mid) :
    Tracks b edge W (do
      match ← g with
      | none =>
        report missing
        return a
      | some outline =>
        put outline
        f) front := by
  refine tracks_bind hg (fun found hfound => ?_) fun found mid hfound => ?_
  · cases found with
    | none => exact spoils_before spoils_report
    | some outline => exact spoils_before (spoils_put (mt mayFair_some.2 hfound))
  · obtain ⟨outline, rfl, -⟩ := hfound
    exact tracks_seq tracks_put fun _ mid => hf mid

section Rules

variable (hr : InTandem r)

include hr

theorem tracks_typeArguments {terminal : Terminal} {mid : List Terminal} :
    Tracks b False Fair (typeArguments r) (terminal :: mid) := by
  unfold typeArguments
  refine tracks_node (tracks_bump_bind (tracks_seq (tracks_eat (by decide)) fun _ _ =>
    tracks_ite (fun _ => tracks_pure _) fun _ => tracks_seq (tracks_iterate_seq fun _ mid => ?_)
      fun complete _ => tracks_ite (fun _ => tracks_expect (by decide))
        fun _ => tracks_seq (tracks_eat (by decide)) fun _ _ => tracks_pure _))
  exact tracks_found_or (hr.type b _ mid) fun _ => tracks_seq (tracks_eat (by decide)) fun _ _ =>
    tracks_ite (fun _ => tracks_pure _) fun _ => tracks_pure _

theorem tracks_optionalTypeArguments (allowed : Bool) {V : Unit → Prop} :
    Tracks b False V (optionalTypeArguments r allowed) front := by
  cases allowed with
  | false => exact tracks_isAhead (by decide) (tracks_pure _)
  | true =>
      refine tracks_ifAt (by decide) (fun glued mid hfront => ?_) fun _ => tracks_pure _
      rw [hfront]
      exact tracks_found (tracks_typeArguments hr)

theorem tracks_referenceHead {terminal : Terminal} {mid : List Terminal} (arguments : Bool) :
    Tracks b False Fair (referenceHead r arguments) (terminal :: mid) :=
  tracks_node (tracks_bump_bind (tracks_optionalTypeArguments hr arguments))

omit hr in
theorem spoils_referenceTurn {eatLastDot arguments : Bool} {reference : Outline}
    (h : ¬Fair reference) :
    Spoils (Turn Fair Fair) (referenceTurn r eatLastDot arguments reference) := by
  have hstop : Spoils (Turn Fair Fair)
      (pure (.done reference) : Grammar (ForInStep Outline)) := spoils_pure h
  refine spoils_bind fun _ => spoils_ite (spoils_bind fun _ => spoils_ite ?_ ?_) hstop
  · exact spoils_yield (spoils_around h)
  · exact spoils_ite (spoils_done (spoils_around h)) hstop

theorem tracks_referenceTurn (eatLastDot arguments : Bool) (reference : Outline) :
    Tracks b False (Turn Fair Fair) (referenceTurn r eatLastDot arguments reference) front := by
  have hstop : Tracks b False (Turn Fair Fair)
      (pure (.done reference) : Grammar (ForInStep Outline)) front := tracks_pure _
  refine tracks_ifAt (by decide) (fun glued mid hfront => ?_) fun _ => hstop
  refine tracks_isAhead (by decide) (tracks_ite (fun hident => ?_) fun _ => tracks_ite ?_ ?_)
  · subst hfront
    cases mid with
    | nil => cases hident
    | cons terminal mid =>
        exact tracks_yield (tracks_around (tracks_bump_bind (tracks_bump_bind
          (tracks_optionalTypeArguments hr arguments))))
  · exact fun _ => tracks_done (tracks_around (tracks_of_spoils (spoils_bind fun _ =>
      spoils_report)))
  · exact fun _ => hstop

theorem tracks_codeReference {terminal : Terminal} {mid : List Terminal}
    (eatLastDot arguments : Bool) :
    Tracks b False Fair (codeReference r eatLastDot arguments) (terminal :: mid) := by
  unfold codeReference
  exact tracks_bind (tracks_referenceHead hr arguments)
    (fun _ h => spoils_iterate (fun _ => spoils_referenceTurn) h) fun _ _ h =>
      tracks_iterate (fun _ => spoils_referenceTurn)
        (fun reference _ _ => tracks_referenceTurn hr eatLastDot arguments reference) h

theorem tracks_wildcard {terminal : Terminal} {mid : List Terminal} {V : Unit → Prop} :
    Tracks b False V (wildcard r) (terminal :: mid) := by
  refine tracks_bump_bind (tracks_isAhead (by decide) (tracks_isAhead (by decide)
    (tracks_ite (fun hat => ?_) fun _ => tracks_pure _)))
  cases mid with
  | nil => cases hat
  | cons terminal mid => exact tracks_bump_bind (tracks_orReport (hr.type b _ mid))

theorem tracks_typeHead (flags : TypeFlags) {V : TypeForm → Prop} :
    Tracks b False V (typeHead r flags) front := by
  refine tracks_next (fun kind glued mid hfront => ?_) fun _ => ⟨tracks_pure _, ?_, ?_⟩
  · rw [hfront]
    refine tracks_ite (fun _ => tracks_bump_bind (tracks_pure _)) fun _ => tracks_ite ?_ ?_
    · exact fun _ => tracks_found_bind (tracks_codeReference hr _ _) fun _ => tracks_pure _
    · refine fun _ => tracks_ite (fun _ => ?_) fun _ => tracks_pure _
      exact tracks_seq (tracks_wildcard hr) fun _ _ => tracks_pure _
  · cases hwildcard : flags.wildcard
    all_goals simp [TokenKind.isPrimitiveType]
  · cases hwildcard : flags.wildcard
    all_goals simp [TokenKind.isPrimitiveType]

omit hr in
theorem spoils_arrayTurn {element : Outline} (h : ¬Fair element) :
    Spoils (Turn Fair Fair) (arrayTurn element) :=
  spoils_bind fun _ => spoils_bind fun _ => spoils_ite (spoils_yield (spoils_around h))
    (spoils_pure h)

omit hr in
theorem spoils_typeSuffix {flags : TypeFlags} {base : Outline} (h : ¬Fair base) :
    Spoils Fair (typeSuffix flags base) := by
  unfold typeSuffix
  exact spoils_bind_of (spoils_iterate (fun _ => spoils_arrayTurn) h) fun _ harray =>
    spoils_bind fun _ => spoils_ite (spoils_around harray) (spoils_pure harray)

omit hr in
theorem tracks_arrayTurn (element : Outline) :
    Tracks b edge (Turn Fair Fair) (arrayTurn element) front := by
  refine tracks_isAhead (by decide) (tracks_isAhead (by decide) (tracks_ite (fun hat => ?_)
    fun _ => tracks_pure _))
  obtain ⟨hopen, hclose⟩ := Bool.and_eq_true_iff.1 hat
  match front, hopen, hclose with
  | _ :: _ :: _, _, _ => exact tracks_yield (tracks_around (tracks_bump_bind tracks_bump))

omit hr in
theorem tracks_typeSuffix (flags : TypeFlags) {base : Outline} (hbase : Fair base) :
    Tracks b edge Fair (typeSuffix flags base) front := by
  unfold typeSuffix
  refine tracks_bind (tracks_iterate (fun _ => spoils_arrayTurn)
    (fun element _ _ => tracks_arrayTurn element) hbase) (fun array h => ?_) fun array mid _ => ?_
  · exact spoils_bind fun _ => spoils_ite (spoils_around h) (spoils_pure h)
  · refine tracks_isAhead (by decide) (tracks_ite (fun hat => ?_) fun _ => tracks_pure _)
    cases mid with
    | nil => cases (Bool.and_eq_true_iff.1 hat).2
    | cons terminal mid => exact tracks_around tracks_bump

theorem tracks_annotTurn : Tracks b False (fun _ => True) (annotTurn r) front := by
  refine tracks_isAhead (by decide) (tracks_isAhead (by decide) (tracks_ite (fun hat => ?_)
    fun _ => tracks_pure _))
  cases front with
  | nil => cases (Bool.and_eq_true_iff.1 hat).1
  | cons terminal mid => exact tracks_found_bind (hr.annot b terminal mid) fun _ => tracks_pure _

theorem tracks_typeBase (flags : TypeFlags) {V : TypeForm → Prop} :
    Tracks b False V (typeBase r flags) front :=
  tracks_seq (tracks_repeatWhile fun _ => tracks_annotTurn hr) fun _ _ => tracks_typeHead hr flags

omit hr in
theorem fair_type {parts : List Outline} : Fair (.node .type parts) ↔ FairAll parts :=
  ⟨Fair.parts, fair_node (by decide)⟩

theorem tracks_type (flags : TypeFlags) : Tracks b False MayFair (Grammar.type r flags) front := by
  unfold Grammar.type
  refine tracks_attempt (tracks_bind
    (tracks_capture (V := fun _ => True) (tracks_typeBase hr flags))
    (fun captured hcaptured => ?_) fun captured mid hcaptured => ?_)
  · obtain ⟨form, parts⟩ := captured
    have hunfair : ¬Fair (.node .type parts) := fun h => hcaptured ⟨trivial, h.parts⟩
    cases form with
    | missing => exact spoils_pure not_mayFair_none
    | wildcard => exact spoils_pure (mt mayFair_some.1 hunfair)
    | named => exact spoils_bind_of (spoils_typeSuffix hunfair) fun _ h =>
        spoils_pure (mt mayFair_some.1 h)
  · obtain ⟨form, parts⟩ := captured
    cases form with
    | missing => exact tracks_pure _
    | wildcard => exact tracks_pure _
    | named => exact tracks_some (tracks_typeSuffix flags (fair_type.2 hcaptured.2))

omit hr in
theorem type_ne_none {flags : TypeFlags} {done : Parsed (Option Outline)} {kind : TokenKind}
    (hnext : nextKind c = some kind) (hkind : kind.isPrimitiveType = true)
    (hrun : Grammar.type r flags c = .ok done) : done.value ≠ none := by
  obtain ⟨stop, hbase⟩ := Casts.run_typeBase_primitive hnext hkind
  obtain ⟨inner, hinner, hcases⟩ := exists_of_attempt_ok hrun
  obtain ⟨captured, later, hcaptured, hlater, rfl⟩ := exists_of_bind_ok hinner
  cases (run_capture hbase).symm.trans hcaptured
  obtain ⟨suffixed, answered, -, hanswered, rfl⟩ := exists_of_bind_ok hlater
  cases hanswered
  rcases hcases with rfl | ⟨hnone, -⟩
  · exact Option.some_ne_none _
  · cases hnone

theorem tracks_annotValue {V : Unit → Prop} : Tracks b True V (annotValue r) front := by
  refine tracks_ifAt (by decide) (fun glued mid hfront => ?_) fun _ => tracks_ifAt (by decide)
    (fun glued mid hfront => ?_) fun _ => tracks_orReport (hr.expression b front)
  · rw [hfront]
    exact tracks_found (hr.annot b _ mid).closed
  · rw [hfront]
    exact tracks_found (hr.arrayInitializer b _ mid).closed

theorem tracks_annotParameter {V : Unit → Prop} : Tracks b True V (annotParameter r) front := by
  refine tracks_isAhead (by decide) (tracks_isAhead (by decide) (tracks_ite (fun hat => ?_)
    fun _ => tracks_annotValue hr))
  obtain ⟨hident, hassign⟩ := Bool.and_eq_true_iff.1 hat
  match front, hident, hassign with
  | _ :: _ :: _, _, _ =>
    exact tracks_found (tracks_node (tracks_bump_bind (tracks_bump_bind (tracks_annotValue hr))))

theorem tracks_annotParameters {terminal : Terminal} {mid : List Terminal} :
    Tracks b False Fair (annotParameters r) (terminal :: mid) := by
  refine tracks_node (tracks_bump_bind (tracks_ifAt (by decide)
    (fun _ _ _ => tracks_expect (by decide)) fun _ => tracks_closed (by decide)
      (tracks_repeatWhile fun _ => ?_)))
  exact tracks_seq (tracks_annotParameter hr) fun _ _ => tracks_eat (by decide)

theorem tracks_annot (terminal : Terminal) (mid : List Terminal) :
    Tracks b False Fair (Grammar.annot r) (terminal :: mid) := by
  have parameters (front : List Terminal) : Tracks b False (fun _ => True)
      (optionalAnnotParameters r) front := by
    refine tracks_ifAt (by decide) (fun glued mid hfront => ?_) fun _ => tracks_pure _
    rw [hfront]
    exact tracks_found (tracks_annotParameters hr)
  refine tracks_node (tracks_bump_bind (tracks_ifAt (by decide) (fun glued mid hfront => ?_)
    fun _ => tracks_of_spoils (spoils_before spoils_report)))
  rw [hfront]
  exact tracks_found_bind (tracks_codeReference hr _ _) parameters

theorem tracks_modifierList :
    Tracks b False Fair (modifierList r .variableModifiers) front := by
  refine tracks_node (tracks_repeatWhile fun mid => tracks_next (fun kind glued later hmid => ?_)
    fun _ => ⟨tracks_pure _, rfl, rfl⟩)
  rw [hmid]
  refine tracks_ite (fun _ => tracks_bump_bind (tracks_pure _)) fun _ => tracks_isAhead (by decide)
    (tracks_ite (fun _ => ?_) fun _ => tracks_pure _)
  exact tracks_found_bind (hr.annot b _ later) fun _ => tracks_pure _

omit hr in
theorem asks_of_passes {mid : Cursor} (hopen : Passes .openParen c mid) (h : Asks r mid) :
    Asks r c := by
  obtain ⟨seen, hrun, hsound⟩ := h
  obtain ⟨parens, later, hparens, hlater, rfl⟩ := exists_of_bind_ok hrun
  obtain ⟨index, glued, rest⟩ := hopen
  have hstep : again (eat .openParen) () ⟨index, ⟨.openParen, glued⟩ :: rest⟩ =
      .ok ⟨.yield (), [.token .openParen], ⟨index + 1, rest⟩⟩ := rfl
  exact ⟨_, bind_ok (run_bind hstep hparens) hlater,
    fairAll_cons.2 ⟨fair_token .openParen, hsound.parts⟩, hsound.value⟩

omit hr in
theorem asks_of_type {modifiers : Parsed Outline} {found : Parsed (Option Outline)} {type : Outline}
    (hopen : nextKind c ≠ some .openParen)
    (hmodifiers : modifierList r .variableModifiers c = .ok modifiers)
    (hfound : r.type .pattern modifiers.cursor = .ok found) (htype : found.value = some type)
    (hfair : FairAll (modifiers.parts ++ modifiers.value :: (found.parts ++ [type])))
    (hnext : nextKind found.cursor = some .ident ∨ nextKind found.cursor = some .openParen) :
    Asks r c := by
  obtain ⟨_, parts, stop⟩ := found
  cases htype
  have hlast : (do return (← isAt .ident) || (← isAt .openParen) : Grammar Bool) stop =
      .ok ⟨true, [], stop⟩ := by
    refine run_look (a := nextKind stop == some .ident) rfl
      (run_look (a := nextKind stop == some .openParen) rfl ?_)
    rcases hnext with hnext | hnext
    · rw [hnext]
      rfl
    · rw [hnext]
      rfl
  refine ⟨_, bind_ok (repeatWhile_of_false (eat_of_nextKind_ne hopen)) (bind_ok hmodifiers
    (bind_ok rfl (bind_ok hfound (bind_ok rfl hlast)))), ?_, rfl⟩
  exact hfair

theorem tracks_probe : Tracks b False (· = true) (probe r) front := by
  refine tracks_seq (tracks_repeatWhile fun _ => tracks_eat (by decide)) fun _ _ =>
    tracks_found_bind (tracks_modifierList hr) fun mid => tracks_bind (hr.type b _ mid)
      (fun found hfound => ?_) fun found _ hfound => ?_
  · cases found with
    | none => exact spoils_pure Bool.false_ne_true
    | some type => exact spoils_before (spoils_put (mt mayFair_some.2 hfound))
  · obtain ⟨type, rfl, -⟩ := hfound
    exact tracks_seq tracks_put fun _ _ => tracks_isAhead (by decide)
      (tracks_isAhead (by decide) (tracks_pure _))

omit hr in
theorem probe_of_isPattern {done : Parsed Bool} (h : isPattern r c = .ok done) :
    ∃ seen, probe r c = .ok seen ∧ done = ⟨seen.value, [], c⟩ :=
  exists_of_lookahead_ok h

/-- If the first run reads a pattern, the lookahead sees one in both texts. If it reads something
else, then it needs to be known that the lookahead sees no pattern in the second text either. -/
theorem tracks_isPattern_of {f : Bool → Grammar α}
    (hask : ∀ c, ¬Asks r c → SpoilsAt W (f true) c) (hyes : Tracks b edge W (f true) front)
    (hno : Tracks b edge W (f false) front)
    (hsame : ∀ {c c' seen seen' second}, Twins b front c c' → probe r c = .ok seen →
      probe r c' = .ok seen' → f false c = .ok second → Sound W second → seen.value = false →
        seen'.value = false) : Tracks b edge W (isPattern r >>= f) front := by
  -- The lookahead does not say yes at an error, or else what follows is not sound.
  have htrue {c : Cursor} {seen : Parsed Bool} {second : Parsed α} (hseen : probe r c = .ok seen)
      (hvalue : seen.value = true) (hsecond : f true c = .ok second) (hsound : Sound W second) :
      Sound (· = true) seen := by
    by_contra h
    refine hask c (fun ⟨seen', hseen', hsound'⟩ => h ?_) second hsecond hsound
    cases hseen.symm.trans hseen'
    exact hsound'
  constructor
  · intro c c' done done' htwins hrun hrun' hsound
    obtain ⟨first, second, hfirst, hsecond, rfl⟩ := exists_of_bind_ok hrun
    obtain ⟨first', second', hfirst', hsecond', rfl⟩ := exists_of_bind_ok hrun'
    obtain ⟨seen, hseen, rfl⟩ := probe_of_isPattern hfirst
    obtain ⟨seen', hseen', rfl⟩ := probe_of_isPattern hfirst'
    dsimp only at hsecond hsecond'
    cases hvalue : seen.value with
    | false =>
        rw [hvalue] at hsecond
        rw [hsame htwins hseen hseen' hsecond hsound hvalue] at hsecond'
        exact hno.runs htwins hsecond hsecond' hsound
    | true =>
        rw [hvalue] at hsecond
        have hsound' := htrue hseen hvalue hsecond hsound
        obtain ⟨-, -, hvalue', -⟩ := (tracks_probe hr).same htwins hseen hseen' hsound'
        rw [hvalue', hvalue] at hsecond'
        exact hyes.runs htwins hsecond hsecond' hsound
  · intro c done hfront hrest hrun hsound
    obtain ⟨first, second, hfirst, hsecond, rfl⟩ := exists_of_bind_ok hrun
    obtain ⟨seen, hseen, rfl⟩ := probe_of_isPattern hfirst
    dsimp only at hsecond
    cases hvalue : seen.value with
    | false =>
        rw [hvalue] at hsecond
        exact hno.stays hfront hrest hsecond hsound
    | true =>
        rw [hvalue] at hsecond
        exact hyes.stays hfront hrest hsecond hsound

theorem tracks_isPattern {f : Bool → Grammar α} (hask : ∀ c, ¬Asks r c → SpoilsAt W (f true) c)
    (hyes : Tracks b edge W (f true) front) (hno : Spoils W (f false)) :
    Tracks b edge W (isPattern r >>= f) front :=
  tracks_isPattern_of hr hask hyes (tracks_of_spoils hno) fun _ _ _ hsecond hsound =>
    absurd hsound (hno _ _ hsecond)

theorem tracks_component (isFirst : Bool) :
    Tracks b True (fun _ => True) (component r isFirst) front := by
  refine tracks_isAtEnd fun atEnd => tracks_ite (fun _ => tracks_pure _) fun _ =>
    tracks_isPattern hr (fun c h => spoilsAt_found_bind (hr.asks c h)) ?_ ?_
  · exact tracks_found_bind (hr.pattern b front).closed fun _ => tracks_pure _
  · exact spoils_before spoils_report

theorem tracks_componentTurn (isFirst : Bool) :
    Tracks b True (fun _ => True) (componentTurn r isFirst) front := by
  refine tracks_ifAt (by decide) (fun _ _ _ => tracks_pure _) fun _ =>
    tracks_ite (fun _ => tracks_component hr isFirst) fun _ => ?_
  exact tracks_seq (tracks_expect (by decide)) fun _ _ => tracks_component hr isFirst

theorem tracks_recordStructure {terminal : Terminal} {mid : List Terminal} :
    Tracks b False Fair (recordStructure r) (terminal :: mid) := by
  unfold recordStructure
  exact tracks_node (tracks_bump_bind (tracks_closed (by decide) (tracks_iterate_seq
    fun isFirst _ => tracks_componentTurn hr isFirst)))

omit hr in
theorem tracks_recordName {V : Unit → Prop} : Tracks b False V recordName front := by
  refine tracks_ifAt (by decide) (fun glued mid hfront => ?_) fun _ => tracks_pure _
  rw [hfront]
  exact tracks_found (tracks_node tracks_bump)

omit hr in
theorem spoils_typedPattern {modifiers type : Outline} (h : ¬(Fair modifiers ∧ Fair type)) :
    Spoils Fair (typedPattern r modifiers type) := by
  have hputs {f : Unit → Grammar Unit} :
      Spoils (fun _ => True) (put modifiers >>= fun _ => put type >>= f) := by
    by_cases hmodifiers : Fair modifiers
    · exact spoils_bind fun _ => spoils_before (spoils_put fun htype => h ⟨hmodifiers, htype⟩)
    · exact spoils_before (spoils_put hmodifiers)
  refine spoils_bind fun _ => spoils_ite ?_ (spoils_bind fun _ => spoils_ite ?_ spoils_fail)
  · exact spoils_bind_of (spoils_capture hputs) fun captured hcaptured => spoils_pure
      fun hfair => hcaptured ⟨trivial, (fairAll_singleton.1 hfair.parts).loose⟩
  · exact spoils_bind_of (spoils_node hputs) fun declared hdeclared => spoils_pure
      fun hfair => hdeclared (fairAll_singleton.1 hfair.parts)

theorem tracks_typedPattern {modifiers type : Outline} :
    Tracks b False Fair (typedPattern r modifiers type) front := by
  refine tracks_ifAt (by decide) (fun glued rest hfront => ?_) fun _ => tracks_ifAt (by decide)
    (fun glued rest hfront => ?_) fun _ => tracks_of_spoils spoils_fail
  · rw [hfront]
    refine tracks_bind (tracks_capture (V := fun _ => True) (tracks_put_bind (tracks_put_bind
      (tracks_found_bind (tracks_recordStructure hr) fun _ => tracks_recordName))))
        (fun captured h => ?_) fun captured last h => tracks_pure _
    exact spoils_pure fun hfair => h ⟨trivial, (fairAll_singleton.1 hfair.parts).loose⟩
  · rw [hfront]
    refine tracks_bind (tracks_node (tracks_put_bind (tracks_put_bind tracks_bump)))
      (fun declared h => ?_) fun declared last h => tracks_pure _
    exact spoils_pure fun hfair => h (fairAll_singleton.1 hfair.parts)

theorem tracks_typeOrRecordPattern :
    Tracks b False Fair (typeOrRecordPattern r) front := by
  refine tracks_bind (tracks_modifierList hr) (fun modifiers h => ?_)
    fun modifiers mid hmodifiers => tracks_bind (hr.type b _ mid) (fun found h => ?_)
      fun found later hfound => ?_
  · refine spoils_bind fun found => ?_
    cases found with
    | none => exact spoils_fail
    | some type => exact spoils_typedPattern fun hboth => h hboth.1
  · cases found with
    | none => exact spoils_fail
    | some type => exact spoils_typedPattern fun hboth => h (mayFair_some.2 hboth.2)
  · obtain ⟨type, rfl, -⟩ := hfound
    exact tracks_typedPattern hr

omit hr in
theorem spoilsAt_typeOrRecordPattern (hopen : nextKind c ≠ some .openParen) (hnone : ¬Asks r c) :
    SpoilsAt Fair (typeOrRecordPattern r) c := by
  refine spoilsAt_bind fun modifiers hmodifiers hfront => spoilsAt_bind fun found hfound hback => ?_
  cases htype : found.value with
  | none => exact spoils_fail _
  | some type =>
      by_cases hnext : nextKind found.cursor = some .ident ∨
        nextKind found.cursor = some .openParen
      · refine spoils_typedPattern (fun hboth => hnone ?_) _
        exact asks_of_type hopen hmodifiers hfound htype (fairAll_append.2 ⟨hfront,
          fairAll_cons.2 ⟨hboth.1, fairAll_append.2 ⟨hback, fairAll_singleton.2 hboth.2⟩⟩⟩) hnext
      · refine spoilsAt_look rfl (spoilsAt_ite (fun h => absurd (.inr (beq_iff_eq.1 h)) hnext)
          fun _ => spoilsAt_look rfl (spoilsAt_ite (fun h => absurd (.inl (beq_iff_eq.1 h)) hnext)
            fun _ => spoils_fail _))

theorem tracks_primaryPattern : Tracks b False Fair (primaryPattern r) front := by
  refine tracks_ifAt (by decide) (fun glued mid hfront => ?_) fun _ => tracks_typeOrRecordPattern hr
  rw [hfront]
  exact tracks_node (tracks_bump_bind (tracks_found_bind (hr.pattern b mid)
    fun _ => tracks_expect (by decide)))

theorem spoilsAt_primaryPattern (hnone : ¬Asks r c) : SpoilsAt Fair (primaryPattern r) c := by
  refine spoilsAt_look (a := nextKind c == some .openParen) rfl (spoilsAt_ite (fun hopen => ?_)
    fun hopen => spoilsAt_typeOrRecordPattern (fun h => hopen (beq_iff_eq.2 h)) hnone)
  obtain ⟨mid, hpasses⟩ := exists_passes (beq_iff_eq.1 hopen)
  refine spoilsAt_node (spoilsAt_bind fun first hfirst _ => ?_)
  cases hpasses.bump.symm.trans hfirst
  exact spoilsAt_found_bind (hr.asks mid fun h => hnone (asks_of_passes hpasses h))

theorem tracks_pattern : Tracks b False Fair (Grammar.pattern r) front := by
  refine tracks_bind (tracks_primaryPattern hr) (fun primary h => ?_) fun primary mid hprimary => ?_
  · exact spoils_bind fun _ => spoils_ite (spoils_node (spoils_before (spoils_put h)))
      (spoils_pure fun hfair => h (fairAll_singleton.1 hfair.loose))
  · refine tracks_ifAt (by decide) (fun glued later hmid => ?_) fun _ => tracks_pure _
    rw [hmid]
    refine tracks_node (tracks_put_bind (tracks_bump_bind (tracks_orReport ?_)))
    exact (hr.binary b guardLevel .terminator later).mono nofun

theorem spoilsAt_pattern (hnone : ¬Asks r c) : SpoilsAt Fair (Grammar.pattern r) c := by
  refine spoilsAt_bind fun primary hprimary hfair => ?_
  have h : ¬Fair primary.value := fun h =>
    spoilsAt_primaryPattern hr hnone primary hprimary ⟨hfair, h⟩
  exact spoils_bind (fun _ => spoils_ite (spoils_node (spoils_before (spoils_put h)))
      (spoils_pure fun hfair => h (fairAll_singleton.1 hfair.loose))) _

end Rules

end PatternSyntax.Proofs.Tandem
