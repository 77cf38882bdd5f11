import PatternSyntax.Proofs.CleanExpressions
import PatternSyntax.Proofs.Document
import PatternSyntax.Proofs.Markers

/-!
The outline of a whole text without errors is that of its subject, and nothing is left behind it.
-/

namespace PatternSyntax.Proofs.CleanDocument

open Grammar
open PatternSyntax.Proofs.CleanExpressions
open PatternSyntax.Proofs.CleanRules
open PatternSyntax.Proofs.CleanRuns
open PatternSyntax.Proofs.Contract
open PatternSyntax.Proofs.Coverage
open PatternSyntax.Proofs.Document
open PatternSyntax.Proofs.Neatness
open PatternSyntax.Proofs.Runs
open PatternSyntax.Proofs.Totality

variable {α β : Type} {depth : Nat} {r : Rules} {c : Cursor}

theorem clean_labelEnd : Clean labelEnd c (Bare fun _ _ => True) := by
  apply clean_bind_bare (clean_eat_bare (by decide))
  intro _ mid _
  split
  · exact clean_pure ⟨rfl, trivial⟩
  · apply clean_bind_bare (clean_eat_bare (by decide))
    intro _ next _
    split
    · exact clean_pure ⟨rfl, trivial⟩
    · exact clean_report

theorem clean_labelElement (hr : Careful r) :
    Clean (labelElement r) c (Bare fun _ _ => True) := by
  refine clean_ifAt (fun hdefault => ?_) fun _ =>
    clean_bind_bare clean_lookahead fun answer mid _ => ?_
  · exact clean_found_bind (clean_node_bare (by decide) (clean_bump_bare hdefault (by decide))).laid
      fun _ => clean_pure ⟨rfl, trivial⟩
  · split
    · exact clean_found_bind (hr.pattern mid) fun _ => clean_pure ⟨rfl, trivial⟩
    · apply clean_bind_bare (hr.conditional .terminator mid)
      intro found stop hfound
      cases found with
      | none => exact clean_pure ⟨rfl, trivial⟩
      | some constant =>
          exact clean_put_bind (hfound constant rfl).laid (clean_pure ⟨rfl, trivial⟩)

theorem clean_labelElements (hr : Careful r) : Tidies (labelElements r) c := by
  refine clean_node_bare (by decide) (clean_repeatWhile_bare (P := fun _ _ => True) fun here => ?_)
  apply clean_bind_bare (clean_labelElement hr)
  intro found mid _
  split
  · exact clean_eat_bare (by decide)
  · exact clean_report_bind

theorem after_put_node {kind : NodeKind} {g : Grammar Unit} {P : Prop}
    (h : After g c fun _ _ _ => P) :
    After (node kind g >>= fun outline => put outline) c fun _ _ _ => P := by
  intro done hrun hclean
  obtain ⟨_, second, hnode, hput, rfl⟩ := exists_of_bind_ok hrun
  obtain ⟨_, _, hcapture, hpure, rfl⟩ := exists_of_bind_ok hnode
  obtain ⟨inner, hinner, rfl⟩ := exists_of_capture_ok hcapture
  cases hpure
  cases hput
  apply h inner hinner
  simpa [Outline.hasErrorAll, Outline.hasError] using hclean

theorem after_some_node {kind : NodeKind} {g : Grammar Unit} (h : Tidies (node kind g) c) :
    After (do return some (← node kind g)) c fun found parts _ =>
      parts = [] ∧ ∃ outline, found = some outline ∧ Tidy outline := by
  intro done hrun _
  obtain ⟨first, _, hnode, hpure, rfl⟩ := exists_of_bind_ok hrun
  cases hpure
  obtain ⟨_, _, hcapture, hpure, rfl⟩ := exists_of_bind_ok hnode
  obtain ⟨inner, hinner, rfl⟩ := exists_of_capture_ok hcapture
  cases hpure
  obtain ⟨-, -, htidy⟩ := h _ hnode rfl
  exact ⟨rfl, _, rfl, htidy⟩

theorem after_switchLabel (hr : Careful r) :
    After (switchLabel r) c fun found parts _ =>
      parts = [] ∧ ∃ label, found = some label ∧ Tidy label := by
  refine after_look (a := nextKind c) rfl ?_
  split
  · refine after_some_node (clean_node_bare (by decide) ?_)
    exact clean_bump_bind_bare ‹_› (by decide) fun _ _ => clean_labelEnd
  · refine after_some_node (clean_node_bare (by decide) (clean_bump_bind_bare ‹_› (by decide)
      fun mid _ => ?_))
    exact clean_found_bind (clean_labelElements hr).laid fun _ => clean_labelEnd
  · refine after_bind (P := fun _ _ _ => True) (fun _ _ _ => trivial) fun _ _ mid _ => ?_
    exact after_bind (P := fun _ _ _ => False) (after_look rfl after_report) fun _ _ _ h => h.elim

def Single (parts : List Outline) : Prop :=
  ∃ outline, parts = [outline] ∧ Laid outline

theorem after_finds {g : Grammar α} {f : α → Grammar β} {P : α → Cursor → Prop}
    {Q : β → List Outline → Cursor → Prop} (hg : Finds g c P)
    (hf : ∀ a mid, g c = .ok ⟨a, [], mid⟩ → P a mid → After (f a) mid Q) :
    After (g >>= f) c Q := by
  obtain ⟨a, mid, hrun, hP⟩ := hg
  exact after_look hrun (hf a mid hrun hP)

theorem after_put {outline : Outline} (h : Laid outline) :
    After (put outline) c fun _ parts _ => Single parts := by
  intro done hrun _
  cases hrun
  exact ⟨outline, rfl, h⟩

theorem after_orReport {missing : ErrorKind} {g : Grammar (Option Outline)}
    (hfinds : Finds g c (Answers c)) (hclean : Offers g c) :
    After (orReport missing g) c fun _ parts _ => Single parts := by
  refine after_finds hfinds fun found mid hrun _ => ?_
  cases found with
  | none => exact after_report
  | some outline =>
      obtain ⟨-, -, htidy⟩ := hclean _ hrun rfl
      exact after_put (htidy outline rfl).laid

theorem after_subject (hr : Ready depth r) (hcareful : Careful r) (s : Subject)
    (hroom : 5 * c.rest.length + 5 ≤ depth) :
    After (Grammar.subject r s) c fun _ parts _ => Single parts := by
  cases s with
  | pattern =>
      refine after_finds (finds_isPattern hr (by omega)) fun answer mid _ ⟨heq, hahead⟩ => ?_
      subst heq
      split
      · refine after_finds (hr.pattern _ (hahead ‹_›) (by omega)) fun outline stop hrun _ => ?_
        obtain ⟨-, -, hlaid⟩ := hcareful.pattern _ _ hrun rfl
        exact after_put hlaid
      · exact (after_put_node (P := False) after_report_bind).mono fun _ _ _ h => h.elim
  | expression => exact after_orReport (hr.expression c hroom) (hcareful.expression c)
  | switchLabel =>
      refine after_bind (after_switchLabel hcareful) fun found front mid h => ?_
      obtain ⟨rfl, label, rfl, htidy⟩ := h
      exact after_put htidy.laid

theorem hasErrorAll_of_endsInError {parts : List Outline} (h : endsInError parts = true) :
    Outline.hasErrorAll parts = true := by
  obtain ⟨event, hmem, herror⟩ := List.any_eq_true.1 h
  have hrow := List.mem_reverse.1 ((List.takeWhile_sublist _).mem hmem)
  rw [← Markers.any_isError_eventsAll id parts]
  exact List.any_eq_true.2 ⟨event, hrow, herror⟩

theorem after_documentTail {parts : List Outline} (hparts : Outline.hasErrorAll parts = false) :
    After (documentTail parts) c fun _ later _ => later = [] ∧ c.rest = [] := by
  refine after_look rfl ?_
  split
  · exact after_pure ⟨rfl, List.isEmpty_iff.1 ‹_›⟩
  · refine (after_put_node (P := False) ?_).mono fun _ _ _ h => h.elim
    unfold leftoverRow
    dsimp only
    split
    · rw [hasErrorAll_of_endsInError ‹_›] at hparts
      cases hparts
    · exact after_bind (P := fun _ _ _ => False) (after_look rfl after_report) fun _ _ _ h => h.elim

theorem after_document (hr : Ready depth r) (hcareful : Careful r) (s : Subject)
    (hroom : 5 * c.rest.length + 5 ≤ depth) {done : Parsed Outline}
    (hrun : document r s c = .ok done) :
    ∃ parts, done.value = .node .root parts ∧
      (Outline.hasErrorAll parts = false → Single parts) := by
  obtain ⟨_, _, hcapture, hpure, rfl⟩ := exists_of_bind_ok hrun
  obtain ⟨body, hbody, rfl⟩ := exists_of_capture_ok hcapture
  cases hpure
  refine ⟨body.parts, rfl, fun hclean => ?_⟩
  obtain ⟨_, second, hcaptured, hlater, rfl⟩ := exists_of_bind_ok hbody
  obtain ⟨inner, hinner, rfl⟩ := exists_of_capture_ok hcaptured
  obtain ⟨_, third, hput, hrest, rfl⟩ := exists_of_bind_ok hlater
  cases hput
  rw [List.nil_append, hasErrorAll_append, Bool.or_eq_false_iff] at hclean
  obtain ⟨outline, hparts, hlaid⟩ := after_subject hr hcareful s hroom inner hinner hclean.1
  have hlater := (after_documentTail hclean.1 third hrest hclean.2).1
  exact ⟨outline, by simp [hparts, hlater], hlaid⟩

theorem single_of_outline {s : Subject} {tokens : List Token} {parts : List Outline}
    (houtline : Parse.outline s tokens = .ok (.node .root parts))
    (hclean : Outline.hasErrorAll parts = false) : Single parts := by
  obtain ⟨outline, stop, hrun, -⟩ := finds_document
    (c := ⟨0, Terminal.ofTokens (Token.significant tokens)⟩) (ready_ofDepth _) s (Nat.le_refl _)
  obtain ⟨found, hvalue, hsingle⟩ :=
    after_document (ready_ofDepth _) (careful_ofDepth _) s (Nat.le_refl _) hrun
  simp only [Parse.outline, deepEnough, hrun] at houtline
  cases hvalue.symm.trans (Except.ok.inj houtline)
  exact hsingle hclean

end PatternSyntax.Proofs.CleanDocument
