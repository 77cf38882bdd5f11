import Mathlib.Data.Finset.Card
import PatternSyntax.Proofs.Operations

/-!
Which markers are open, and when a rollback finds out that they are not those of its checkpoint. A
recorder only compares how many are open, so that it misses markers that were closed if others were
opened in their place.
-/

namespace PatternSyntax.Proofs.OpenMarkers

open PatternSyntax.Proofs.Markers
open PatternSyntax.Proofs.Operations

variable {s t : Session} {step : Step}

/-- The handles of the markers that are open. -/
def openHandles (s : Session) : Finset Nat :=
  (Finset.range s.markers.size).filter fun handle => s.markers[handle]?.join.isSome

theorem mem_openHandles {handle : Nat} :
    handle ∈ openHandles s ↔ ∃ m, s.markers[handle]? = some (some m) := by
  rw [openHandles, Finset.mem_filter, Finset.mem_range, Option.isSome_iff_exists]
  constructor
  · rintro ⟨-, m, hm⟩
    exact ⟨m, Option.join_eq_some_iff.1 hm⟩
  · rintro ⟨m, hm⟩
    exact ⟨(Array.getElem?_eq_some_iff.1 hm).1, m, Option.join_eq_some_iff.2 hm⟩

theorem size_notMem_openHandles : s.markers.size ∉ openHandles s := by
  simp [mem_openHandles]

theorem openHandles_push {m : Marker} (h : t.markers = s.markers.push (some m)) :
    openHandles t = insert s.markers.size (openHandles s) := by
  ext handle
  rw [Finset.mem_insert, mem_openHandles, mem_openHandles, h, Array.getElem?_push]
  by_cases hlast : handle = s.markers.size
  · simp [hlast]
  · simp [hlast]

theorem openHandles_modify {handle : Nat}
    (h : t.markers = s.markers.modify handle fun _ => none) :
    openHandles t = (openHandles s).erase handle := by
  ext other
  rw [Finset.mem_erase, mem_openHandles, mem_openHandles, h, Array.getElem?_modify]
  by_cases heq : handle = other
  · simp [heq]
  · simp [heq, Ne.symm heq]

/-- As many markers are open as handles have not been used up. -/
def Counted (s : Session) : Prop :=
  s.recorder.openMarkers.length = (openHandles s).card

theorem counted_ofText (text : String) : Counted (Session.ofText text) :=
  rfl

theorem Counted.effect (hs : Counted s) (h : Effect s step t) : Counted t := by
  unfold Counted at hs ⊢
  cases h with
  | grown hgrows =>
      obtain ⟨_, _, _, rfl⟩ := hgrows
      exact hs
  | started =>
      rw [openHandles_push rfl, Finset.card_insert_of_notMem size_notMem_openHandles, ← hs]
      rfl
  | preceded _ hprecede =>
      obtain ⟨_, _, -, -, rfl⟩ := precede_eq_ok_iff.1 hprecede
      rw [openHandles_push rfl, Finset.card_insert_of_notMem size_notMem_openHandles, ← hs]
      rfl
  | completed hm hcomplete =>
      obtain ⟨-, -, -, outer, hopen, rfl⟩ := complete_eq_ok_iff.1 hcomplete
      rw [openHandles_modify rfl, Finset.card_erase_of_mem (mem_openHandles.2 ⟨_, hm⟩), ← hs, hopen]
      rfl
  | abandoned hm habandon =>
      obtain ⟨-, -, -, outer, hopen, rfl⟩ := abandon_eq_ok_iff.1 habandon
      rw [openHandles_modify rfl, Finset.card_erase_of_mem (mem_openHandles.2 ⟨_, hm⟩), ← hs, hopen]
      rfl
  | rolledBack _ hrollback =>
      obtain ⟨-, rfl⟩ := rollback_eq_ok_iff.1 hrollback
      exact hs

theorem counted_run {steps : List Step} (hs : Counted s) (hrun : (s.run steps).2 = some t) :
    Counted t :=
  run_keeps (fun _ _ _ _ hs heffect => hs.effect heffect) hs hrun

/-- The handle of a checkpoint stands for the same checkpoint as long as a session goes on. -/
theorem checkpoint_run {steps : List Step} {n : Nat} {k : Checkpoint}
    (hk : s.checkpoints[n]? = some k) (hrun : (s.run steps).2 = some t) :
    t.checkpoints[n]? = some k := by
  refine run_keeps (I := fun s => s.checkpoints[n]? = some k)
    (fun step _ s t hs heffect => ?_) hk hrun
  cases heffect with
  | grown =>
      rw [Array.getElem?_append_left (Array.getElem?_eq_some_iff.1 hs).1]
      exact hs
  | started => exact hs
  | preceded => exact hs
  | completed => exact hs
  | abandoned => exact hs
  | rolledBack => exact hs

/-- The markers that were open in the first session and are closed in the second one. -/
def closedSince (s t : Session) : Finset Nat :=
  openHandles s \ openHandles t

/-- The markers that are open in the second session and were not open in the first one. -/
def openedSince (s t : Session) : Finset Nat :=
  openHandles t \ openHandles s

theorem card_eq_iff : (openHandles t).card = (openHandles s).card ↔
    (closedSince s t).card = (openedSince s t).card := by
  have hs := Finset.card_sdiff_add_card_inter (openHandles s) (openHandles t)
  have ht := Finset.card_sdiff_add_card_inter (openHandles t) (openHandles s)
  rw [Finset.inter_comm] at ht
  unfold closedSince openedSince
  omega

theorem openHandles_eq_iff :
    openHandles t = openHandles s ↔ closedSince s t = ∅ ∧ openedSince s t = ∅ := by
  rw [closedSince, openedSince, Finset.sdiff_eq_empty_iff_subset, Finset.sdiff_eq_empty_iff_subset,
    Finset.Subset.antisymm_iff, and_comm]

theorem checkpoint_since {steps : List Step} (hrun : (s.run (.checkpoint :: steps)).2 = some t) :
    t.checkpoints[s.checkpoints.size]? = some s.recorder.checkpoint := by
  have hpushed : (s.checkpoints.push s.recorder.checkpoint)[s.checkpoints.size]? =
      some s.recorder.checkpoint := Array.getElem?_push_size
  exact checkpoint_run (s := { s with checkpoints := s.checkpoints.push s.recorder.checkpoint })
    hpushed hrun

/-- A session can go back to a checkpoint if and only if, since then, as many markers of that time
were closed as later ones are open; otherwise the rollback fails, and says why. So it finds out
about every other marker unless old ones were closed and new ones are open. -/
theorem rollback_ok_iff_card_eq {text : String} {before later : List Step}
    (hs : ((Session.ofText text).run before).2 = some s)
    (ht : (s.run (.checkpoint :: later)).2 = some t) :
    ((∃ answer after, t.step (.rollback s.checkpoints.size) = .ok (answer, after)) ↔
      (closedSince s t).card = (openedSince s t).card) ∧
    ((closedSince s t).card ≠ (openedSince s t).card →
      ∃ fault, t.step (.rollback s.checkpoints.size) = .error (.fault fault) ∧
        fault.message = "rollback across an unbalanced marker") ∧
    (closedSince s t = ∅ ∨ openedSince s t = ∅ →
      ((∃ answer after, t.step (.rollback s.checkpoints.size) = .ok (answer, after)) ↔
        openHandles t = openHandles s)) := by
  have hcounted : Counted s := counted_run (counted_ofText text) hs
  have hcounted' : Counted t := counted_run hcounted ht
  have hk := checkpoint_since ht
  have hlength : t.recorder.openMarkers.length = s.recorder.checkpoint.openMarkers ↔
      (closedSince s t).card = (openedSince s t).card := by
    rw [← card_eq_iff, ← hcounted', ← hcounted]
    rfl
  have hiff : (∃ answer after, t.step (.rollback s.checkpoints.size) = .ok (answer, after)) ↔
      (closedSince s t).card = (openedSince s t).card := by
    rw [← hlength]
    constructor
    · rintro ⟨answer, after, hstep⟩
      by_contra hne
      rw [step_rollback_of_ne hk hne] at hstep
      cases hstep
    · intro heq
      exact ⟨_, _, step_rollback_of_ok hk (rollback_eq_ok_iff.2 ⟨heq, rfl⟩)⟩
  refine ⟨hiff, fun hne => ⟨.rollbackUnbalanced, ?_, rfl⟩, fun hside => ?_⟩
  · exact step_rollback_of_ne hk (mt hlength.1 hne)
  -- If one of the sets is empty, then they are equally large only if both are.
  · rw [hiff, openHandles_eq_iff]
    rcases hside with hnone | hnone
    · rw [hnone, Finset.card_empty, eq_comm, Finset.card_eq_zero]
      exact (and_iff_right rfl).symm
    · rw [hnone, Finset.card_empty, Finset.card_eq_zero]
      exact (and_iff_left rfl).symm

/-- One marker closed and two opened: the rollback fails. -/
theorem rollback_finds_second_marker :
    ∃ s t, ((Session.ofText "a").run [.start]).2 = some s ∧
      (s.run [.checkpoint, .complete 0 (.node .type), .start, .start]).2 = some t ∧
      closedSince s t = {0} ∧ openedSince s t = {1, 2} ∧
      ∃ fault, t.step (.rollback 0) = .error (.fault fault) ∧
        fault.message = "rollback across an unbalanced marker" := by
  refine ⟨_, _, rfl, rfl, by decide, by decide, ?_⟩
  exact (@rollback_ok_iff_card_eq _ _ "a" [.start] [.complete 0 (.node .type), .start, .start]
    rfl rfl).2.1 (by decide)

/-- The exception is needed: a rollback that does not find out that the marker of its checkpoint was
closed and another one is open. -/
theorem rollback_misses_swapped_marker :
    ∃ s t after, ((Session.ofText "a").run [.start]).2 = some s ∧
      (s.run [.checkpoint, .complete 0 (.node .root), .start]).2 = some t ∧
      openHandles s = {0} ∧ openHandles t = {1} ∧
      t.step (.rollback 0) = .ok (.nothing, after) :=
  ⟨_, _, _, rfl, rfl, by decide, by decide, rfl⟩

end PatternSyntax.Proofs.OpenMarkers
