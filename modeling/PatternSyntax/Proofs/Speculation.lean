import PatternSyntax.Proofs.Operations
import PatternSyntax.Proofs.Progress

/-!
Looking ahead and trying. The lookahead for patterns sees one exactly where the procedures for
patterns can be applied. What is recorded for a lookahead, or for an attempt that fails, is taken
back as if it had never been recorded.
-/

namespace PatternSyntax.Proofs.Speculation

open Grammar
open PatternSyntax.Proofs.Contract
open PatternSyntax.Proofs.Coverage
open PatternSyntax.Proofs.Depth
open PatternSyntax.Proofs.Forward
open PatternSyntax.Proofs.Markers
open PatternSyntax.Proofs.Operands
open PatternSyntax.Proofs.Operations
open PatternSyntax.Proofs.PatternGrammar
open PatternSyntax.Proofs.Progress
open PatternSyntax.Proofs.Realization
open PatternSyntax.Proofs.Runs
open PatternSyntax.Proofs.Totality
open PatternSyntax.Proofs.TypeRuns

variable {α β : Type} {depth : Nat} {r : Rules} {c : Cursor}

/-- The two ways in which a rule for patterns can be misused. -/
def IsMisuse (fault : Fault) : Prop :=
  fault = .patternWithoutType ∨ fault = .patternWithoutName

/-- The rule cannot be applied here, since no pattern begins. -/
def Refuses (g : Grammar α) (c : Cursor) : Prop :=
  ∃ fault, g c = .error fault ∧ IsMisuse fault

theorem refuses_fail {fault : Fault} (h : IsMisuse fault) : Refuses (fail fault : Grammar α) c :=
  ⟨fault, rfl, h⟩

theorem refuses_bind {g : Grammar α} {f : α → Grammar β} (h : Refuses g c) :
    Refuses (g >>= f) c := by
  obtain ⟨fault, hrun, hfault⟩ := h
  exact ⟨fault, by rw [bind_apply, hrun], hfault⟩

theorem refuses_bind_ok {g : Grammar α} {f : α → Grammar β} {first : Parsed α}
    (hrun : g c = .ok first) (h : Refuses (f first.value) first.cursor) :
    Refuses (g >>= f) c := by
  obtain ⟨fault, herror, hfault⟩ := h
  exact ⟨fault, by rw [bind_apply, hrun]; simp only [herror], hfault⟩

theorem refuses_node {kind : NodeKind} {g : Grammar Unit} (h : Refuses g c) :
    Refuses (node kind g) c := by
  obtain ⟨fault, hrun, hfault⟩ := h
  exact refuses_bind ⟨fault, by simp only [capture, hrun], hfault⟩

theorem refuses_ifAt {kind : TokenKind} {yes no : Grammar α}
    (hyes : nextKind c = some kind → Refuses yes c)
    (hno : nextKind c ≠ some kind → Refuses no c) :
    Refuses (isAt kind >>= fun found => if found = true then yes else no) c := by
  have hlook : isAt kind c = .ok ⟨nextKind c == some kind, [], c⟩ := rfl
  apply refuses_bind_ok hlook
  dsimp only
  split
  · exact hyes (beq_iff_eq.1 ‹_›)
  · exact hno fun h => ‹¬_› (beq_iff_eq.2 h)

/-- Behind its modifiers the rule finds either no type or one that is not followed by a name or by
components. -/
theorem refuses_typeOrRecordPattern (hnone : ¬TypeAhead c) (hroom : 5 * c.rest.length + 2 ≤ depth) :
    Refuses (typeOrRecordPattern (.ofDepth depth)) c := by
  have hr := ready_ofDepth depth
  obtain ⟨modifiers, mid, hmodifiers, hmakes⟩ :=
    finds_modifierList (c := c) hr .variableModifiers (by omega)
  have hmid := hmakes.2.length_le
  obtain ⟨found, stop, hfound, -⟩ := hr.type .pattern mid (by omega)
  refine refuses_bind_ok hmodifiers (refuses_bind_ok hfound ?_)
  cases found with
  | none => exact refuses_fail (.inl rfl)
  | some type =>
      have hahead (hnext : nextKind stop = some .ident ∨ nextKind stop = some .openParen) :
          TypeAhead c := ⟨depth, _, _, hmodifiers, hfound, rfl, hnext⟩
      refine refuses_ifAt (fun hopen => absurd (hahead (.inr hopen)) hnone) fun _ => ?_
      refine refuses_ifAt (fun hident => absurd (hahead (.inl hident)) hnone) fun _ => ?_
      exact refuses_fail (.inr rfl)

/-- The rule descends into all parentheses that open here, just as the lookahead skips them. -/
theorem refuses_primaryPattern
    (hpattern : ∀ c, ¬PatternAhead c → 5 * c.rest.length + 3 ≤ depth →
      Refuses (Rules.ofDepth depth).pattern c)
    (hnone : ¬PatternAhead c) (hroom : 5 * c.rest.length + 2 ≤ depth) :
    Refuses (primaryPattern (.ofDepth depth)) c := by
  refine refuses_ifAt (fun hopen => ?_) fun _ =>
    refuses_typeOrRecordPattern (fun htype => hnone (patternAhead_of_typeAhead htype)) hroom
  obtain ⟨index, rest⟩ := c
  obtain ⟨glued, later, rfl⟩ := exists_of_nextKind hopen
  simp only [List.length_cons] at hroom
  have hbump : bump ⟨index, ⟨.openParen, glued⟩ :: later⟩ =
      .ok ⟨(), [.token .openParen], ⟨index + 1, later⟩⟩ := rfl
  refine refuses_node (refuses_bind_ok hbump
    (refuses_bind (hpattern _ (fun hlater => hnone ?_) (by dsimp only; omega))))
  exact patternAhead_of_passes (.intro index glued later) hlater

theorem refuses_pattern (depth : Nat) (c : Cursor) (hnone : ¬PatternAhead c)
    (hroom : 5 * c.rest.length + 3 ≤ depth) : Refuses (Rules.ofDepth depth).pattern c := by
  induction depth generalizing c with
  | zero => omega
  | succ depth ih => exact refuses_bind (refuses_primaryPattern ih hnone (by omega))

theorem refuses_rule {name : RuleName} (hname : AsksForPattern name = true)
    (hnone : ¬PatternAhead c) (hroom : 5 * c.rest.length + 5 ≤ depth) :
    Refuses (name.rule (.ofDepth depth)) c := by
  cases name with
  | pattern => exact refuses_bind (refuses_pattern depth c hnone (by omega))
  | primaryPattern =>
      exact refuses_bind (refuses_primaryPattern (refuses_pattern depth) hnone (by omega))
  | _ => cases hname

variable (p : Recorder)

/-- The procedures for patterns can be applied exactly where the lookahead sees a pattern, at any
place of any recording: there they end, and elsewhere they end in a fault, which says that a type or
a name is missing. The lookahead always answers. -/
theorem isPattern_exact :
    ∃ answer, Procedure.deepEnough Procedure.isPattern p = .ok (answer, p) ∧
      ∀ name : RuleName, AsksForPattern name = true →
        ((∃ fault, name.run p = .error fault) ↔ answer = false) ∧
        ∀ fault, name.run p = .error fault →
          fault = .patternWithoutType ∨ fault = .patternWithoutName := by
  obtain ⟨answer, hanswer, -⟩ := exists_run_isPattern p
  have hanswer : Procedure.deepEnough Procedure.isPattern p = .ok (answer, p) :=
    hanswer _ (Nat.le_refl _)
  refine ⟨answer, hanswer, fun name hname => ?_⟩
  cases answer with
  | false =>
      have hnone : ¬PatternAhead p.cursor := fun hahead => by
        cases hanswer.symm.trans ((run_isPattern_iff p).2 hahead)
      obtain ⟨fault, hrun, hfault⟩ := refuses_rule hname hnone (Nat.le_refl _)
      have herror : name.run p = .error fault := ((outcome_run name p).eq_error_iff fault).2 hrun
      rw [herror]
      refine ⟨by simp, fun found hfound => ?_⟩
      exact Except.error.inj hfound ▸ hfault
  | true =>
      obtain ⟨found, q, hrun, -⟩ := exists_run_name p name
        fun _ => (run_isPattern_iff p).1 hanswer
      have hrun : name.run p = .ok (found, q) := hrun _ (Nat.le_refl _)
      rw [hrun]
      exact ⟨by simp, by simp⟩

/-- Of the procedures that may find nothing, those that then leave nothing behind. -/
def LeavesNoTrace : RuleName → Bool
  | .type _ | .expression | .conditional _ | .conditionalAnd _ => true
  | _ => false

theorem finds_rule {name : RuleName} (hname : LeavesNoTrace name = true) :
    Finds (name.rule (.ofDepth (5 * c.rest.length + 5))) c (Answers c) := by
  have hr := ready_ofDepth (5 * c.rest.length + 5)
  cases name with
  | type flags => exact hr.type flags c (by omega)
  | expression => exact hr.expression c (Nat.le_refl _)
  | conditional arrow => exact hr.conditional arrow c (Nat.le_refl _)
  | conditionalAnd arrow => exact hr.binary _ arrow c (by omega)
  | _ => cases hname

theorem exists_run_none {f : Procedures → Procedure (Option CompletedNode)}
    {g : Rules → Grammar (Option Outline)}
    (hrun : Outcome .found p (deepEnough g p.cursor) (Procedure.deepEnough f p))
    (hfinds : Finds (g (.ofDepth (5 * p.cursor.rest.length + 5))) p.cursor (Answers p.cursor)) :
    ∃ found q, Procedure.deepEnough f p = .ok (found, q) ∧ (found = none → q = p) := by
  obtain ⟨answer, stop, hrule, hanswer⟩ := hfinds
  rw [deepEnough, hrule] at hrun
  obtain ⟨found, i, hcursor, -, hshows, hprocedure⟩ := hrun.exists_of_rule_ok
  refine ⟨found, _, hprocedure, ?_⟩
  rintro rfl
  cases answer with
  | none =>
      cases hcursor.symm.trans hanswer
      exact recordAll_nil p
  | some outline => cases hshows

/-- Whatever the recorder holds, and wherever it stands: the lookahead for patterns leaves it as it
was, whatever it answers, and so does a type or an expression that is not found, and a cast that
turns out to be none. -/
theorem leaves_no_trace :
    (∃ answer, Procedure.deepEnough Procedure.isPattern p = .ok (answer, p)) ∧
    (∀ name : RuleName, LeavesNoTrace name = true →
      ∃ found q, name.run p = .ok (found, q) ∧ (found = none → q = p)) ∧
    ∀ arrow : ArrowRole, ∃ found q,
      Procedure.deepEnough (fun q => Procedure.cast q arrow) p = .ok (found, q) ∧
        (found = none → q = p) := by
  refine ⟨?_, fun name hname => ?_, fun arrow => ?_⟩
  · obtain ⟨answer, hanswer, -⟩ := exists_run_isPattern p
    exact ⟨answer, hanswer _ (Nat.le_refl _)⟩
  · exact exists_run_none p (outcome_run name p) (finds_rule hname)
  · exact exists_run_none p
      (outcome_deepEnough fun _ _ h => (realizes_cast h arrow).found_of_option p)
      (finds_cast_anywhere arrow (Nat.le_refl _))

end PatternSyntax.Proofs.Speculation
