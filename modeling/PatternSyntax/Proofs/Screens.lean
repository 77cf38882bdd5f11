import PatternSyntax.Proofs.Casts
import PatternSyntax.Proofs.CleanExpressions
import PatternSyntax.Proofs.ExpressionRuns
import PatternSyntax.Proofs.Nodes
import PatternSyntax.Proofs.Parentheses

/-!
Expressions in which an at sign stands only behind a parenthesis, a brace, `new` or `instanceof`.
-/

namespace PatternSyntax.Proofs.Screens

open Grammar
open PatternSyntax.Proofs.Casts
open PatternSyntax.Proofs.CleanExpressions (nextKind_of_isLambda)
open PatternSyntax.Proofs.Coverage
open PatternSyntax.Proofs.ExpressionRuns
open PatternSyntax.Proofs.Forward
open PatternSyntax.Proofs.Operands
open PatternSyntax.Proofs.Parentheses
open PatternSyntax.Proofs.Runs
open PatternSyntax.Proofs.Totality
open PatternSyntax.Proofs.TypeRuns

variable {α β : Type} {r : Rules} {c : Cursor}

/-- Each at sign of an outline is behind a screen. -/
def Screened (outline : Outline) (_ : Cursor) : Prop :=
  screened outline.tokens = true

/-- The same of what a rule may answer with. -/
def MayScreen (found : Option Outline) (stop : Cursor) : Prop :=
  ∀ outline ∈ found, Screened outline stop

/-- In what the rule puts down, each at sign is behind a screen. -/
def Shields (g : Grammar α) (c : Cursor) : Prop :=
  ∀ done, g c = .ok done → screened (Outline.tokensAll done.parts) = true

theorem shields_bind {g : Grammar α} {f : α → Grammar β} (hg : Shields g c)
    (hf : ∀ a mid, Shields (f a) mid) : Shields (g >>= f) c := by
  intro done hrun
  obtain ⟨first, second, hfirst, hsecond, rfl⟩ := exists_of_bind_ok hrun
  rw [tokensAll_append]
  exact screened_append (hg first hfirst) (hf _ _ second hsecond)

theorem shields_look {g : Grammar α} {f : α → Grammar β} {a : α}
    (hrun : g c = .ok ⟨a, [], c⟩) (hf : Shields (f a) c) : Shields (g >>= f) c := by
  intro done hdone
  obtain ⟨first, second, hfirst, hsecond, rfl⟩ := exists_of_bind_ok hdone
  cases hrun.symm.trans hfirst
  exact hf second hsecond

theorem shields_pure (a : α) : Shields (pure a) c := by
  intro done hrun
  cases hrun
  rfl

theorem shields_report (kind : ErrorKind) : Shields (report kind) c := by
  intro done hrun
  cases hrun
  rfl

theorem shields_ite {p : Prop} [Decidable p] {yes no : Grammar α} (hyes : p → Shields yes c)
    (hno : ¬p → Shields no c) : Shields (if p then yes else no) c := by
  split
  · exact hyes ‹_›
  · exact hno ‹_›

theorem shields_ifAt {kind : TokenKind} {yes no : Grammar α}
    (hyes : nextKind c = some kind → Shields yes c)
    (hno : nextKind c ≠ some kind → Shields no c) :
    Shields (isAt kind >>= fun found => if found = true then yes else no) c :=
  shields_look (a := nextKind c == some kind) rfl
    (shields_ite (fun hat => hyes (beq_iff_eq.1 hat)) fun hat => hno fun h => hat (beq_iff_eq.2 h))

theorem shields_bump {kind : TokenKind} (hnext : nextKind c = some kind)
    (hkind : kind ≠ .atSign) : Shields bump c := by
  obtain ⟨stop, hpasses⟩ := exists_passes hnext
  intro done hrun
  cases hpasses.bump.symm.trans hrun
  exact screened_of_forall (List.forall_mem_singleton.2 hkind)

theorem shields_screen {kind : TokenKind} {f : Unit → Grammar β} (hnext : nextKind c = some kind)
    (hkind : isScreen kind = true) : Shields (bump >>= f) c := by
  obtain ⟨mid, hpasses⟩ := exists_passes hnext
  intro done hrun
  obtain ⟨first, second, hfirst, -, rfl⟩ := exists_of_bind_ok hrun
  cases hpasses.bump.symm.trans hfirst
  exact screened_cons hkind

theorem shields_bump_bind {kind : TokenKind} {f : Unit → Grammar β}
    (hnext : nextKind c = some kind) (hkind : kind ≠ .atSign) (hf : ∀ mid, Shields (f ()) mid) :
    Shields (bump >>= f) c :=
  shields_bind (shields_bump hnext hkind) fun _ => hf

theorem shields_bump_two {kind kind' : TokenKind} (hnext : nextKind c = some kind)
    (hahead : (c.rest[1]?.map (·.kind) == some kind') = true)
    (hkinds : kind ≠ .atSign ∧ kind' ≠ .atSign) : Shields (bump >>= fun _ => bump) c := by
  obtain ⟨mid, hpasses⟩ := exists_passes hnext
  intro done hrun
  obtain ⟨first, second, hfirst, hsecond, rfl⟩ := exists_of_bind_ok hrun
  cases hpasses.bump.symm.trans hfirst
  rw [tokensAll_append]
  exact screened_append (screened_of_forall (List.forall_mem_singleton.2 hkinds.1))
    (shields_bump (hpasses.ahead_eq.symm.trans (beq_iff_eq.1 hahead)) hkinds.2 second hsecond)

theorem shields_eat {kind : TokenKind} (hkind : kind ≠ .atSign) : Shields (eat kind) c :=
  shields_ifAt (fun hnext => shields_bump_bind hnext hkind fun _ => shields_pure true)
    fun _ => shields_pure false

theorem shields_expect {kind : TokenKind} {missing : ErrorKind} (hkind : kind ≠ .atSign) :
    Shields (expect kind missing) c :=
  shields_bind (shields_eat hkind) fun _ _ =>
    shields_ite (fun _ => shields_pure ()) fun _ => shields_report missing

theorem screened_singleton {outline : Outline} (h : screened outline.tokens = true) :
    screened (Outline.tokensAll [outline]) = true := by
  rwa [Outline.tokensAll, Outline.tokensAll, List.append_nil]

theorem shields_put {outline : Outline} (h : screened outline.tokens = true) :
    Shields (put outline) c := by
  intro done hrun
  cases hrun
  exact screened_singleton h

theorem shields_found {g : Grammar Outline} (h : Gives g c Screened) :
    Shields (g >>= fun outline => put outline) c := by
  intro done hrun
  obtain ⟨first, second, hfirst, hsecond, rfl⟩ := exists_of_bind_ok hrun
  obtain ⟨hparts, hscreened⟩ := h first hfirst
  rw [hparts]
  exact shields_put hscreened second hsecond

theorem shields_found_bind {g : Grammar Outline} {f : Unit → Grammar β} (h : Gives g c Screened)
    (hf : ∀ mid, Shields (f ()) mid) :
    Shields (g >>= fun outline => put outline >>= f) c := by
  intro done hrun
  obtain ⟨first, second, hfirst, hsecond, rfl⟩ := exists_of_bind_ok hrun
  obtain ⟨hparts, hscreened⟩ := h first hfirst
  rw [hparts]
  exact shields_bind (shields_put hscreened) (fun _ => hf) second hsecond

theorem shields_orReport {missing : ErrorKind} {g : Grammar (Option Outline)}
    (h : Gives g c MayScreen) : Shields (orReport missing g) c := by
  intro done hrun
  obtain ⟨first, second, hfirst, hsecond, rfl⟩ := exists_of_bind_ok hrun
  obtain ⟨hparts, hscreened⟩ := h first hfirst
  rw [hparts]
  cases hvalue : first.value with
  | none =>
      rw [hvalue] at hsecond
      exact shields_report missing second hsecond
  | some outline =>
      rw [hvalue] at hsecond
      exact shields_put (hscreened outline hvalue) second hsecond

theorem gives_screened_node {kind : NodeKind} {g : Grammar Unit} (h : Shields g c) :
    Gives (node kind g) c Screened :=
  gives_capture_bind fun inner hinner => gives_pure (h inner hinner)

theorem gives_screened_around {kind : NodeKind} {first : Outline} {g : Grammar Unit}
    (hfirst : screened first.tokens = true) (h : Shields g c) :
    Gives (around kind first g) c Screened :=
  gives_capture_bind fun inner hinner => gives_pure (screened_append hfirst (h inner hinner))

theorem gives_screened_some {g : Grammar Outline} (h : Gives g c Screened) :
    Gives (do return some (← g)) c MayScreen :=
  gives_bind h fun _ _ hscreened => gives_pure fun _ heq => Option.some.inj heq ▸ hscreened

theorem gives_screened_yield {g : Grammar Outline} (h : Gives g c Screened) :
    Gives (do return .yield (← g)) c (TurnAt Screened Screened) :=
  gives_bind h fun _ _ hscreened => gives_pure hscreened

theorem gives_grow {g : Grammar (Option Outline)} {turn : Outline → Grammar (ForInStep Outline)}
    (hg : Gives g c MayScreen) (hturn : ∀ subject here, screened subject.tokens = true →
      Gives (turn subject) here (TurnAt Screened Screened)) : Gives (grow g turn) c MayScreen := by
  refine gives_bind hg fun found mid hfound => ?_
  cases found with
  | none => exact gives_pure nofun
  | some first =>
      exact gives_screened_some (gives_iterate (I := Screened) hturn (hfound first rfl))

/-- What the rules of a table answer with. -/
structure Screening (r : Rules) : Prop where
  primitive (flags : TypeFlags) (c : Cursor) (kind : TokenKind) : nextKind c = some kind →
    kind.isPrimitiveType = true → Gives (r.type flags) c MayScreen
  unary (arrow : ArrowRole) (c : Cursor) : Gives (r.unary arrow) c MayScreen
  binary (level : Nat) (arrow : ArrowRole) (c : Cursor) : Gives (r.binary level arrow) c MayScreen
  conditional (arrow : ArrowRole) (c : Cursor) : Gives (r.conditional arrow) c MayScreen

section Rules

variable (hr : Screening r)

include hr

theorem gives_screened_operand : Gives (operand r) c MayScreen := by
  refine gives_look (a := nextKind c) rfl ?_
  cases hnext : nextKind c with
  | none => exact gives_pure nofun
  | some kind =>
      have htoken {made : NodeKind} (hkind : kind ≠ .atSign) :
          Gives (do return some (← node made bump)) c MayScreen :=
        gives_screened_some (gives_screened_node (shields_bump hnext hkind))
      have hscreen {made : NodeKind} {f : Unit → Grammar Unit} (hkind : isScreen kind = true) :
          Gives (do return some (← node made (bump >>= f))) c MayScreen :=
        gives_screened_some (gives_screened_node (shields_screen hnext hkind))
      have hword {word : TokenKind} (hword : word ≠ .atSign) (h : (kind == word) = true) :
          kind ≠ .atSign := beq_iff_eq.1 h ▸ hword
      refine gives_split (fun h => htoken ?_) fun _ =>
        gives_split (fun h => htoken (hword (by decide) h)) fun _ =>
        gives_split (fun h => htoken (hword (by decide) h)) fun _ =>
        gives_split (fun h => htoken (hword (by decide) h)) fun _ =>
        gives_split (fun h => hscreen (beq_iff_eq.1 h ▸ rfl)) fun _ =>
        gives_split (fun h => hscreen (beq_iff_eq.1 h ▸ rfl)) fun _ =>
        gives_split (fun h => gives_screened_some (gives_screened_node ?_)) fun _ =>
        gives_pure nofun
      · rintro rfl
        cases h
      · have hmembers {mid : Cursor} : Shields classSelector mid :=
          shields_bind (shields_expect (by decide)) fun _ _ => shields_expect (by decide)
        intro done hrun
        obtain ⟨first, second, hfirst, hsecond, rfl⟩ := exists_of_bind_ok hrun
        obtain ⟨hparts, hscreened⟩ := hr.primitive .plain c kind hnext h first hfirst
        rw [hparts]
        cases hvalue : first.value with
        | none =>
            rw [hvalue] at hsecond
            exact hmembers second hsecond
        | some type =>
            rw [hvalue] at hsecond
            exact shields_bind (shields_put (hscreened type hvalue)) (fun _ _ => hmembers)
              second hsecond

theorem gives_screened_selectorTurn {subject : Outline}
    (hsubject : screened subject.tokens = true) :
    Gives (selectorTurn r subject) c (TurnAt Screened Screened) := by
  have hyield {kind : NodeKind} {g : Grammar Unit} (h : Shields g c) :
      Gives (do return .yield (← around kind subject g)) c (TurnAt Screened Screened) :=
    gives_screened_yield (gives_screened_around hsubject h)
  refine gives_look (a := nextKind c == some .dot) rfl (gives_split (fun hdot => ?_) fun _ =>
    gives_look (a := nextKind c == some .openParen) rfl (gives_split (fun hopen => ?_) fun _ =>
      gives_look (a := nextKind c == some .openBracket) rfl (gives_split (fun hopen => ?_) fun _ =>
        gives_pure hsubject)))
  · have hnext := beq_iff_eq.1 hdot
    refine gives_look rfl (gives_split
      (fun h => hyield (shields_bump_two hnext h (by decide))) fun _ =>
        gives_look rfl (gives_split
          (fun h => hyield (shields_bump_two hnext h (by decide))) fun _ => ?_))
    exact gives_bind (gives_screened_around hsubject (shields_bump_bind hnext (by decide)
      fun _ => shields_report _)) fun _ _ hscreened => gives_pure hscreened
  · have hnext := beq_iff_eq.1 (Bool.and_eq_true_iff.1 hopen).2
    exact hyield (shields_found (gives_screened_node (shields_screen hnext rfl)))
  · refine hyield (shields_bump_bind (beq_iff_eq.1 hopen) (by decide) fun mid => shields_bind
      (shields_orReport (hr.conditional .lambda mid)) fun _ _ => shields_expect (by decide))

omit hr in
theorem gives_screened_postfixTurn {subject : Outline} (hsubject : screened subject.tokens = true) :
    Gives (postfixTurn subject) c (TurnAt Screened Screened) := by
  refine gives_look (a := nextKind c == some .plusPlus) rfl
    (gives_look (a := nextKind c == some .minusMinus) rfl (gives_split (fun hat => ?_)
      fun _ => gives_pure hsubject))
  have hyield {kind : TokenKind} (hnext : (nextKind c == some kind) = true)
      (hkind : kind ≠ .atSign) :
      Gives (do return .yield (← around .postfixExpression subject bump)) c
        (TurnAt Screened Screened) :=
    gives_screened_yield (gives_screened_around hsubject (shields_bump (beq_iff_eq.1 hnext) hkind))
  rcases Bool.or_eq_true_iff.1 hat with hplus | hminus
  · exact hyield hplus (by decide)
  · exact hyield hminus (by decide)

omit hr in
theorem gives_screened_lambdaParameters (hlambda : isLambda c.rest = true) :
    Gives (lambdaParameters r) c Screened := by
  unfold lambdaParameters
  refine gives_screened_node (shields_ifAt (fun hident => ?_) fun hident => ?_)
  · exact shields_found (gives_screened_node (shields_bump hident (by decide)))
  · exact shields_screen ((nextKind_of_isLambda hlambda).resolve_left hident) rfl

theorem shields_lambdaRow (hlambda : isLambda c.rest = true) : Shields (lambdaRow r) c := by
  refine shields_found_bind (gives_screened_lambdaParameters hlambda) fun mid => shields_bind
    (shields_eat (by decide)) fun _ next => shields_ifAt (fun hopen => ?_)
      fun _ => shields_orReport (hr.conditional .lambda next)
  exact shields_found (gives_screened_node (shields_screen hopen rfl))

theorem gives_screened_primary (arrow : ArrowRole) : Gives (primary r arrow) c MayScreen := by
  rw [primary]
  refine gives_look (a := c.rest) rfl ?_
  split
  · exact gives_screened_some (gives_screened_node (shields_lambdaRow hr
      (Bool.and_eq_true_iff.1 ‹_›).2))
  · exact gives_grow (gives_screened_operand hr) fun _ _ => gives_screened_selectorTurn hr

theorem gives_screened_postfixOperand (arrow : ArrowRole) :
    Gives (postfixOperand r arrow) c MayScreen :=
  gives_grow (gives_screened_primary hr arrow) fun _ _ => gives_screened_postfixTurn

omit hr in
theorem gives_screened_cast (arrow : ArrowRole) (hopen : nextKind c = some .openParen) :
    Gives (cast r arrow) c MayScreen := by
  intro done hrun
  unfold Grammar.cast at hrun
  obtain ⟨whole, hwhole, rfl | ⟨-, rfl⟩⟩ := exists_of_attempt_ok hrun
  · refine (show Gives _ c MayScreen from gives_capture_bind fun inner hinner =>
      gives_split (fun _ => ?_) fun _ => gives_pure nofun) _ hwhole
    obtain ⟨mid, hpasses⟩ := exists_passes hopen
    obtain ⟨first, second, hfirst, -, rfl⟩ := exists_of_bind_ok hinner
    cases hpasses.bump.symm.trans hfirst
    refine gives_screened_some (gives_screened_node fun done hrun => ?_)
    obtain ⟨placed, later, hplaced, -, rfl⟩ := exists_of_bind_ok hrun
    cases hplaced
    exact screened_cons rfl
  · exact ⟨rfl, nofun⟩

theorem gives_screened_unary (arrow : ArrowRole) : Gives (Grammar.unary r arrow) c MayScreen := by
  refine gives_look (a := nextKind c) rfl ?_
  cases hnext : nextKind c with
  | none => exact gives_pure nofun
  | some kind =>
      refine gives_split (fun hprefix => gives_screened_some (gives_screened_node ?_)) fun _ =>
        gives_split (fun hopen => ?_) fun _ => gives_screened_postfixOperand hr arrow
      · refine shields_bump_bind hnext ?_ fun mid => shields_orReport (hr.binary _ arrow mid)
        rintro rfl
        cases hprefix
      · rw [beq_iff_eq.1 hopen] at hnext
        refine gives_bind (gives_screened_cast arrow hnext) fun found mid hfound => ?_
        cases found with
        | none => exact gives_screened_postfixOperand hr arrow
        | some outline => exact gives_pure hfound

omit hr in
theorem screened_operator {operator : BinaryOperator} {rest : List Terminal}
    (h : BinaryOperator.ofTerminals? rest = some operator) :
    screened (Outline.tokensAll (operatorTokens operator rest)) = true := by
  have htokens : Outline.tokensAll (operatorTokens operator rest) =
      (rest.take operator.width).map (·.kind) := by
    unfold operatorTokens
    induction rest.take operator.width with
    | nil => rfl
    | cons terminal front ih => rw [List.map_cons, List.map_cons, Outline.tokensAll, ih]; rfl
  rw [htokens]
  unfold BinaryOperator.ofTerminals? at h
  split at h
  case h_1 => cases h
  case h_5 =>
    split at h
    all_goals cases h
    all_goals rfl
  all_goals
    cases h
    rfl

theorem gives_screened_binary (level : Nat) (arrow : ArrowRole) :
    Gives (Grammar.binary r level arrow) c MayScreen := by
  rw [Grammar.binary]
  refine gives_grow (hr.unary arrow c) fun left here hleft done hrun => ?_
  cases binaryTurn_cases hrun with
  | stop => exact ⟨rfl, hleft⟩
  | test => exact ⟨rfl, screened_append hleft (screened_cons rfl)⟩
  | join hoperator _ hfound hvalue =>
      obtain ⟨hparts, hscreened⟩ := hr.binary _ arrow _ _ hfound
      refine ⟨rfl, screened_append hleft ?_⟩
      rw [tokensAll_append, hparts]
      exact screened_append (screened_operator hoperator) (screened_singleton (hscreened _ hvalue))
  | lack hoperator _ hfound =>
      refine ⟨rfl, screened_append hleft ?_⟩
      rw [tokensAll_append, (hr.binary _ arrow _ _ hfound).1]
      exact screened_append (screened_operator hoperator) rfl

theorem gives_screened_conditional (arrow : ArrowRole) :
    Gives (Grammar.conditional r arrow) c MayScreen := by
  refine gives_bind (hr.binary 0 arrow c) fun found mid hfound => ?_
  cases found with
  | none => exact gives_pure nofun
  | some condition =>
      refine gives_look (a := nextKind mid == some .question) rfl (gives_split (fun hat => ?_)
        fun _ => gives_pure hfound)
      refine gives_screened_some (gives_screened_around (hfound condition rfl)
        (shields_bump_bind (beq_iff_eq.1 hat) (by decide) fun next => shields_bind
          (shields_orReport (hr.conditional .lambda next)) fun _ _ =>
            shields_bind (shields_expect (by decide)) fun _ last =>
              shields_orReport (hr.conditional arrow last)))

end Rules

theorem gives_screened_typeSuffix (flags : TypeFlags) {base : Outline}
    (hbase : screened base.tokens = true) : Gives (typeSuffix flags base) c Screened := by
  unfold typeSuffix
  refine gives_bind (gives_iterate (I := Screened) (J := Screened)
    (fun element here helement => ?_) hbase) fun array mid harray => ?_
  · refine gives_look (a := nextKind here == some .openBracket) rfl (gives_look rfl
      (gives_split (fun hat => ?_) fun _ => gives_pure helement))
    obtain ⟨hopen, hclose⟩ := Bool.and_eq_true_iff.1 hat
    exact gives_screened_yield (gives_screened_around helement
      (shields_bump_two (beq_iff_eq.1 hopen) hclose (by decide)))
  · refine gives_look (a := nextKind mid == some .ellipsis) rfl (gives_split (fun hat => ?_)
      fun _ => gives_pure harray)
    exact gives_screened_around harray
      (shields_bump (beq_iff_eq.1 (Bool.and_eq_true_iff.1 hat).2) (by decide))

theorem gives_screened_primitive {flags : TypeFlags} {kind : TokenKind}
    (hnext : nextKind c = some kind) (hkind : kind.isPrimitiveType = true) :
    Gives (Grammar.type r flags) c MayScreen := by
  have hne : kind ≠ .atSign := by
    rintro rfl
    cases hkind
  intro done hrun
  obtain ⟨mid, hbase⟩ := run_typeBase_primitive hnext hkind
  obtain ⟨inner, hinner, hcases⟩ := exists_of_attempt_ok hrun
  obtain ⟨captured, later, hcaptured, hlater, rfl⟩ := exists_of_bind_ok hinner
  cases (run_capture hbase).symm.trans hcaptured
  rcases hcases with rfl | ⟨-, rfl⟩
  · have hkinds : screened [kind] = true := screened_of_forall (List.forall_mem_singleton.2 hne)
    have hsuffix : Gives (typeSuffix flags (.node .type [.token kind])) mid Screened :=
      gives_screened_typeSuffix flags hkinds
    exact gives_screened_some hsuffix _ hlater
  · exact ⟨rfl, nofun⟩

theorem screening_ofDepth (depth : Nat) : Screening (.ofDepth depth) := by
  induction depth with
  | zero => exact ⟨fun _ _ _ _ _ => nofun, fun _ _ => nofun, fun _ _ _ => nofun, fun _ _ => nofun⟩
  | succ depth ih =>
      rw [Rules.ofDepth_succ]
      exact ⟨fun _ _ _ => gives_screened_primitive, fun arrow _ => gives_screened_unary ih arrow,
        fun level arrow _ => gives_screened_binary ih level arrow,
        fun arrow _ => gives_screened_conditional ih arrow⟩

end PatternSyntax.Proofs.Screens
