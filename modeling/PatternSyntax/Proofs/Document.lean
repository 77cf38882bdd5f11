import PatternSyntax.Grammar.Document
import PatternSyntax.Proofs.Totality

/-!
Every text has an outline. It accounts for all significant tokens, and its root is one node.
-/

namespace PatternSyntax.Proofs.Document

open Grammar
open PatternSyntax.Proofs.Contract
open PatternSyntax.Proofs.Coverage
open PatternSyntax.Proofs.Runs
open PatternSyntax.Proofs.Totality

variable {depth : Nat} {r : Rules} {c : Cursor}

theorem lays_labelEnd : Lays labelEnd c c fun _ _ => True := by
  apply lays_bind lays_eat
  intro _ mid _ _
  split
  · exact lays_pure trivial
  · apply lays_bind lays_eat
    intro _ next _ _
    split
    · exact lays_pure trivial
    · exact lays_report.mono fun _ _ _ _ => trivial

theorem lays_labelElement (hr : Ready depth r) (hroom : 5 * c.rest.length + 5 ≤ depth) :
    Lays (labelElement r) c c fun found stop =>
      found = true → stop.rest.length < c.rest.length := by
  refine lays_ifAt (fun hdefault => ?_) fun _ => lays_bind_finds (finds_isPattern hr (by omega))
    fun answer _ ⟨heq, hahead⟩ => ?_
  · exact lays_found_bind (finds_node_token (by decide) (length_pos_of_nextKind hdefault)).covers
      fun _ _ hlt => lays_pure fun _ => hlt
  · subst heq
    split
    · exact lays_found_bind (hr.pattern _ (hahead ‹_›) (by omega)) fun _ _ hlt =>
        lays_pure fun _ => hlt
    · apply lays_bind_finds (hr.conditional .terminator _ hroom)
      intro found stop hfound
      cases found with
      | none =>
          cases hfound
          exact lays_pure nofun
      | some constant => exact lays_put_bind hfound.1.2 (lays_pure fun _ => hfound.2)

theorem finds_labelElements (hr : Ready depth r) (hroom : 5 * c.rest.length + 5 ≤ depth) :
    Finds (labelElements r) c (Makes c) := by
  refine finds_node_true (by decide) (lays_repeatWhile fun here hhere =>
    lays_bind (lays_labelElement hr (by omega)) fun found mid hmid hlt => ?_)
  split
  · exact lays_eat.mono fun _ _ _ hnext h => Nat.lt_of_lt_of_le (hnext h) hmid
  · exact lays_report_bind (lays_pure nofun)

theorem finds_switchLabel (hr : Ready depth r) (hroom : 5 * c.rest.length ≤ depth)
    (hkind : nextKind c = some .defaultKw ∨ nextKind c = some .caseKw) :
    Finds (switchLabel r) c (Answers c) := by
  apply finds_look (a := nextKind c) rfl
  rcases hkind with hdefault | hcase
  · rw [hdefault]
    exact Finds.answers (finds_node_bump (by decide) (length_pos_of_nextKind hdefault)
      fun _ _ => lays_labelEnd)
  · rw [hcase]
    exact Finds.answers (finds_node_bump (by decide) (length_pos_of_nextKind hcase) fun mid hmid =>
      lays_found_bind (finds_labelElements hr (by omega)).covers_of_makes fun _ _ _ =>
        lays_labelEnd)

theorem lays_switchLabel_of_ne (hdefault : nextKind c ≠ some .defaultKw)
    (hcase : nextKind c ≠ some .caseKw) :
    Lays (switchLabel r) c c fun found _ => found = none := by
  apply lays_look (a := nextKind c) rfl
  split
  · exact absurd ‹_› hdefault
  · exact absurd ‹_› hcase
  · exact lays_put_bind (.loose (.nil _) (.nil _)) (lays_bind lays_reportUnexpected
      fun _ _ _ _ => lays_pure rfl)

theorem finds_node_error {g : Grammar Unit} {P : Cursor → Prop} {parts : List Outline}
    {stop : Cursor} (hrun : g c = .ok ⟨(), parts, stop⟩) (hcovers : Covers c parts stop)
    (hsize : Outline.sizeAll parts ≠ 0) (hP : P stop) :
    Finds (node .error g) c fun outline stop => Covers c [outline] stop ∧ P stop := by
  have hcapture : capture g c = .ok ⟨((), parts), [], stop⟩ := by simp only [capture, hrun]
  have hfits : Fits .error parts := ⟨fun _ => hsize, fun h => absurd h (by decide)⟩
  exact finds_look hcapture (finds_pure ⟨.node hcovers hfits (.nil _), hP⟩)

theorem finds_missedPattern :
    Finds missedPattern c fun outline stop => Covers c [outline] stop ∧ stop.rest = [] := by
  have hlays : Lays (report .expectedPattern >>= fun _ => bumpAll) c c fun _ stop =>
      stop.rest = [] := lays_report_bind lays_bumpAll
  obtain ⟨done, hrun, hcovers, hstop⟩ := hlays
  obtain ⟨_, second, hreport, -, rfl⟩ := exists_of_bind_ok hrun
  cases hreport
  exact finds_node_error hrun hcovers (by simp [Outline.sizeAll, Outline.size]) hstop

/-- Tokens behind the subject are put into an error node, with or without an error of its own. -/
theorem finds_leftovers (parts : List Outline) (hpos : 0 < c.rest.length) :
    Finds (node .error (leftoverRow parts)) c fun outline stop =>
      Covers c [outline] stop ∧ stop.rest = [] := by
  have hlays : Lays (leftoverRow parts) c c fun _ stop => stop.rest = [] := by
    unfold leftoverRow
    dsimp only
    split
    · exact lays_bumpAll
    · exact lays_bind lays_reportUnexpected fun _ _ _ _ => lays_bumpAll
  obtain ⟨done, hrun, hcovers, hstop⟩ := hlays
  refine finds_node_error hrun hcovers (fun hsize => ?_) hstop
  rw [hcovers.eq_of_sizeAll_eq_zero hsize] at hstop
  simp [hstop] at hpos

theorem lays_subject (hr : Ready depth r) (s : Subject) (hroom : 5 * c.rest.length + 5 ≤ depth) :
    Lays (Grammar.subject r s) c c fun _ _ => True := by
  cases s with
  | pattern =>
      refine lays_bind_finds (finds_isPattern hr (by omega)) fun answer _ ⟨heq, hahead⟩ => ?_
      subst heq
      split
      · exact (lays_found (hr.pattern _ (hahead ‹_›) (by omega))).mono fun _ _ _ _ => trivial
      · exact (lays_found (finds_missedPattern)).mono fun _ _ _ _ => trivial
  | expression => exact lays_orReport (hr.expression c hroom)
  | switchLabel =>
      by_cases hkind : nextKind c = some .defaultKw ∨ nextKind c = some .caseKw
      · apply lays_bind_finds (finds_switchLabel hr (by omega) hkind)
        intro found mid hfound
        cases found with
        | none =>
            cases hfound
            exact lays_pure trivial
        | some label => exact lays_put hfound.1.2 trivial
      · obtain ⟨hdefault, hcase⟩ := not_or.1 hkind
        exact lays_bind (lays_switchLabel_of_ne hdefault hcase) fun found _ _ hfound =>
          hfound ▸ lays_pure trivial

/-- A whole text is one node, which reaches from the first token to behind the last one. -/
theorem finds_document (hr : Ready depth r) (s : Subject)
    (hroom : 5 * c.rest.length + 5 ≤ depth) :
    Finds (document r s) c fun outline stop => ∃ parts,
      outline = .node .root parts ∧ Covers c parts stop ∧ stop.rest = [] := by
  refine finds_bind (finds_capture (P := fun _ stop => stop.rest = []) ?_)
    fun captured _ hcaptured => finds_pure ⟨captured.2, rfl, hcaptured⟩
  apply lays_bind_finds (finds_capture (lays_subject hr s hroom))
  rintro ⟨_, parts⟩ mid ⟨hcovers, -⟩
  refine lays_putAll_bind hcovers (lays_look (a := mid.rest.isEmpty) rfl ?_)
  split
  · exact lays_pure (List.isEmpty_iff.1 ‹_›)
  · exact lays_found (finds_leftovers parts
      (List.length_pos_iff.2 fun h => ‹¬_› (List.isEmpty_iff.2 h)))

theorem exists_outline (s : Subject) (tokens : List Token) :
    ∃ parts stop, Parse.outline s tokens = .ok (.node .root parts) ∧
      Covers ⟨0, Terminal.ofTokens (Token.significant tokens)⟩ parts ⟨stop, []⟩ := by
  obtain ⟨_, ⟨index, rest⟩, hrun, parts, rfl, hcovers, hstop⟩ :=
    finds_document (c := ⟨0, Terminal.ofTokens (Token.significant tokens)⟩)
      (ready_ofDepth _) s (Nat.le_refl _)
  cases hstop
  refine ⟨parts, index, ?_, hcovers⟩
  simp only [Parse.outline, deepEnough, hrun]
  rfl

end PatternSyntax.Proofs.Document
