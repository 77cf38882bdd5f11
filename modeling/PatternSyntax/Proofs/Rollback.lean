import PatternSyntax.Proofs.OpenMarkers

/-!
What a rollback restores. Behind a checkpoint nothing is written into the record of before, except
for the links of nodes that were finished before the checkpoint and wrapped after it.
-/

namespace PatternSyntax.Proofs.Rollback

open PatternSyntax.Proofs.Markers
open PatternSyntax.Proofs.Operations
open PatternSyntax.Proofs.OpenMarkers

/-- A record that goes on from an old one. Only at the given positions may the links of old starts
have changed. -/
def Relinked (wrapped : Nat → Prop) (old new : List Event) : Prop :=
  old.length ≤ new.length ∧ ∀ i < old.length, new[i]? = old[i]? ∨
    wrapped i ∧ ∃ kind link later,
      old[i]? = some (.start kind link) ∧ new[i]? = some (.start kind later)

section Relinked

variable {wrapped : Nat → Prop} {old new : List Event}

theorem Relinked.refl (wrapped : Nat → Prop) (old : List Event) : Relinked wrapped old old :=
  ⟨Nat.le_refl _, fun _ _ => .inl rfl⟩

theorem Relinked.of_getElem? {later : List Event} (h : Relinked wrapped old new)
    (hlength : old.length ≤ later.length) (heq : ∀ i < old.length, later[i]? = new[i]?) :
    Relinked wrapped old later :=
  ⟨hlength, fun i hi => by rw [heq i hi]; exact h.2 i hi⟩

theorem Relinked.append (h : Relinked wrapped old new) (events : List Event) :
    Relinked wrapped old (new ++ events) := by
  refine h.of_getElem? ?_ fun i hi => List.getElem?_append_left (Nat.lt_of_lt_of_le hi h.1)
  rw [List.length_append]
  exact Nat.le_add_right_of_le h.1

theorem Relinked.set (h : Relinked wrapped old new) {position : Nat}
    (hposition : old.length ≤ position) (event : Event) :
    Relinked wrapped old (new.set position event) :=
  h.of_getElem? (by rw [List.length_set]; exact h.1) fun i hi =>
    List.getElem?_set_ne (Nat.ne_of_gt (Nat.lt_of_lt_of_le hi hposition))

theorem Relinked.take (h : Relinked wrapped old new) {n : Nat} (hn : old.length ≤ n) :
    Relinked wrapped old (new.take n) := by
  refine h.of_getElem? ?_ fun i hi => List.getElem?_take_of_lt (Nat.lt_of_lt_of_le hi hn)
  rw [List.length_take]
  exact Nat.le_min.2 ⟨hn, h.1⟩

theorem Relinked.link (h : Relinked wrapped old new) {position : Nat} {kind : SyntaxKind}
    {link : Option Nat} (hat : new[position]? = some (.start kind link))
    (hwrapped : position < old.length → wrapped position) (later : Option Nat) :
    Relinked wrapped old (new.set position (.start kind later)) := by
  refine ⟨by rw [List.length_set]; exact h.1, fun i hi => ?_⟩
  by_cases hne : position = i
  · subst position
    have hset : (new.set i (.start kind later))[i]? = some (.start kind later) :=
      List.getElem?_set_self (List.getElem?_eq_some_iff.1 hat).1
    rcases h.2 i hi with heq | ⟨-, _, before, mid, hold, hnew⟩
    · exact .inr ⟨hwrapped hi, kind, link, later, heq ▸ hat, hset⟩
    · cases hnew.symm.trans hat
      exact .inr ⟨hwrapped hi, kind, before, later, hold, hset⟩
  · rw [List.getElem?_set_ne hne]
    exact h.2 i hi

theorem Relinked.take_eq (h : Relinked wrapped old new) (hnone : ∀ i < old.length, ¬ wrapped i) :
    new.take old.length = old := by
  refine List.ext_getElem? fun i => ?_
  by_cases hi : i < old.length
  · rw [List.getElem?_take_of_lt hi]
    exact (h.2 i hi).resolve_right fun ⟨hwrapped, _⟩ => hnone i hi hwrapped
  · rw [List.getElem?_eq_none (Nat.not_lt.1 hi),
      List.getElem?_eq_none (Nat.le_trans (List.length_take_le ..) (Nat.not_lt.1 hi))]

end Relinked

/-- A step that closes no marker of the given session, and goes back to no checkpoint of it. -/
def Since (s : Session) : Step → Prop
  | .complete marker _ => s.markers.size ≤ marker
  | .abandon marker => s.markers.size ≤ marker
  | .rollback checkpoint => s.checkpoints.size ≤ checkpoint
  | _ => True

/-- The place of a node that was finished in the given session and wrapped by one of the steps. -/
def WrappedAt (s : Session) (steps : List Step) (position : Nat) : Prop :=
  ∃ n node, .precede n ∈ steps ∧ s.nodes[n]? = some node ∧ node.position = position

/-- The markers of the second session that are open and were not known in the first one. -/
def newHandles (s t : Session) : Finset Nat :=
  (openHandles t).filter (s.markers.size ≤ ·)

/-- What steps since a checkpoint keep: the record of the first session, and that whatever was made
since points behind it. -/
structure Stays (s : Session) (wrapped : Nat → Prop) (t : Session) : Prop where
  tokens : t.recorder.tokens = s.recorder.tokens
  textEnd : t.recorder.textEnd = s.recorder.textEnd
  events : Relinked wrapped s.recorder.events t.recorder.events
  states : s.recorder.markers <+: t.recorder.markers
  openMarkers : ∃ newer, t.recorder.openMarkers = newer ++ s.recorder.openMarkers ∧
    newer.length = (newHandles s t).card
  size : s.markers.size ≤ t.markers.size
  marker (handle : Nat) (m : Marker) : s.markers.size ≤ handle →
    t.markers[handle]? = some (some m) →
    s.recorder.events.length ≤ m.position ∧ s.recorder.markers.length ≤ m.id
  node (n : Nat) (node : CompletedNode) : t.nodes[n]? = some node →
    s.nodes[n]? = some node ∨ s.recorder.events.length ≤ node.position
  checkpoint (n : Nat) (k : Checkpoint) : s.checkpoints.size ≤ n → t.checkpoints[n]? = some k →
    s.recorder.events.length ≤ k.events ∧ s.recorder.markers.length ≤ k.markers

variable {s t u : Session} {wrapped : Nat → Prop} {step : Step}

theorem Stays.refl (hnew : newHandles s s = ∅) : Stays s wrapped s where
  tokens := rfl
  textEnd := rfl
  events := .refl ..
  states := List.prefix_refl _
  openMarkers := ⟨[], rfl, by rw [hnew]; rfl⟩
  size := Nat.le_refl _
  marker handle m hle hm := absurd (Array.getElem?_eq_some_iff.1 hm).1 (Nat.not_lt.2 hle)
  node n node hnode := .inl hnode
  checkpoint n k hle hk := absurd (Array.getElem?_eq_some_iff.1 hk).1 (Nat.not_lt.2 hle)

theorem newHandles_self (s : Session) : newHandles s s = ∅ := by
  ext handle
  simp only [newHandles, openHandles, Finset.mem_filter, Finset.mem_range, Finset.notMem_empty,
    iff_false]
  omega

theorem newHandles_push {m : Marker} (hsize : s.markers.size ≤ t.markers.size)
    (h : u.markers = t.markers.push (some m)) :
    (newHandles s u).card = (newHandles s t).card + 1 := by
  rw [newHandles, openHandles_push h, Finset.filter_insert, if_pos hsize,
    Finset.card_insert_of_notMem fun hmem => size_notMem_openHandles (Finset.mem_filter.1 hmem).1]
  rfl

theorem newHandles_modify {handle : Nat} {m : Marker} (hle : s.markers.size ≤ handle)
    (hm : t.markers[handle]? = some (some m))
    (h : u.markers = t.markers.modify handle fun _ => none) :
    (newHandles s t).card = (newHandles s u).card + 1 := by
  have hmem : handle ∈ newHandles s t :=
    Finset.mem_filter.2 ⟨mem_openHandles.2 ⟨m, hm⟩, hle⟩
  rw [show newHandles s u = (newHandles s t).erase handle by
    rw [newHandles, openHandles_modify h, Finset.filter_erase]; rfl]
  exact (Finset.card_erase_add_one hmem).symm

theorem prefix_set {α : Type} {old new : List α} (h : old <+: new) {i : Nat}
    (hi : old.length ≤ i) (value : α) : old <+: new.set i value := by
  obtain ⟨later, rfl⟩ := h
  rw [List.set_append_right i value hi]
  exact List.prefix_append ..

theorem prefix_take {α : Type} {old new : List α} (h : old <+: new) {n : Nat}
    (hn : old.length ≤ n) : old <+: new.take n :=
  List.prefix_take_iff.2 ⟨h, hn⟩

/-- Closing a marker that was opened since only takes that one from the open markers. -/
theorem Stays.close (hs : Stays s wrapped t) {handle : Nat} {m : Marker} {outer : List Nat}
    (hle : s.markers.size ≤ handle) (hm : t.markers[handle]? = some (some m))
    (hopen : t.recorder.openMarkers = m.id :: outer)
    (hu : u.markers = t.markers.modify handle fun _ => none) :
    ∃ newer, outer = newer ++ s.recorder.openMarkers ∧ newer.length = (newHandles s u).card := by
  obtain ⟨newer, heq, hlength⟩ := hs.openMarkers
  rw [newHandles_modify hle hm hu] at hlength
  cases newer with
  | nil => simp at hlength
  | cons id newer =>
      rw [hopen, List.cons_append] at heq
      exact ⟨newer, (List.cons.inj heq).2, Nat.succ.inj hlength⟩

theorem Stays.marker_modify (hs : Stays s wrapped t) {handle : Nat} :
    ∀ other m, s.markers.size ≤ other →
      (t.markers.modify handle fun _ => none)[other]? = some (some m) →
      s.recorder.events.length ≤ m.position ∧ s.recorder.markers.length ≤ m.id := by
  intro other m hle hm
  rw [Array.getElem?_modify] at hm
  split at hm
  · simp at hm
  · exact hs.marker other m hle hm

theorem Stays.marker_push (hs : Stays s wrapped t) :
    ∀ handle m, s.markers.size ≤ handle →
      (t.markers.push (some t.recorder.start.1))[handle]? = some (some m) →
      s.recorder.events.length ≤ m.position ∧ s.recorder.markers.length ≤ m.id := by
  intro handle m hle hm
  rw [Array.getElem?_push] at hm
  split at hm
  · cases hm
    exact ⟨hs.events.1, hs.states.length_le⟩
  · exact hs.marker handle m hle hm

theorem Stays.open_push (hs : Stays s wrapped t) {m : Marker} {id : Nat}
    (hu : u.markers = t.markers.push (some m)) :
    ∃ newer, id :: t.recorder.openMarkers = newer ++ s.recorder.openMarkers ∧
      newer.length = (newHandles s u).card := by
  obtain ⟨newer, heq, hlength⟩ := hs.openMarkers
  exact ⟨id :: newer, by rw [heq, List.cons_append], by
    rw [newHandles_push hs.size hu, List.length_cons, hlength]⟩

theorem Stays.effect (hs : Stays s wrapped t) (hsince : Since s step)
    (hwrapped : ∀ n node, step = .precede n → s.nodes[n]? = some node → wrapped node.position)
    (h : Effect t step u) : Stays s wrapped u := by
  cases h with
  | grown hgrows hnodes hcheckpoints =>
      obtain ⟨events, states, index, rfl⟩ := hgrows
      refine ⟨hs.tokens, hs.textEnd, hs.events.append events,
        hs.states.trans (List.prefix_append ..), hs.openMarkers, hs.size, hs.marker,
        fun n node hnode => ?_, fun n k hle hk => ?_⟩
      · rw [Array.getElem?_append] at hnode
        split at hnode
        · exact hs.node n node hnode
        · exact .inr (Nat.le_trans hs.events.1 (hnodes node (Array.mem_of_getElem? hnode)))
      · rw [Array.getElem?_append] at hk
        split at hk
        · exact hs.checkpoint n k hle hk
        · rw [hcheckpoints k (Array.mem_of_getElem? hk)]
          exact ⟨hs.events.1, hs.states.length_le⟩
  | started =>
      exact ⟨hs.tokens, hs.textEnd, hs.events.append _,
        hs.states.trans (List.prefix_append ..), hs.open_push rfl,
        Nat.le_trans hs.size (by simp), hs.marker_push, hs.node, hs.checkpoint⟩
  | @preceded n node m p hnode hprecede =>
      obtain ⟨kind, link, hat, rfl, rfl⟩ := precede_eq_ok_iff.1 hprecede
      refine ⟨hs.tokens, hs.textEnd, (hs.events.link hat (fun hlt => ?_) _).append _,
        hs.states.trans (List.prefix_append ..), hs.open_push rfl,
        Nat.le_trans hs.size (by simp), hs.marker_push, hs.node, hs.checkpoint⟩
      -- The link is set in an old start that may change, or in a later one.
      rcases hs.node n node hnode with hold | hge
      · exact hwrapped n node rfl hold
      · exact absurd hlt (Nat.not_lt.2 hge)
  | @completed handle m kind node p hm hcomplete =>
      obtain ⟨-, -, rfl, outer, hopen, rfl⟩ := complete_eq_ok_iff.1 hcomplete
      obtain ⟨hposition, hid⟩ := hs.marker handle m hsince hm
      refine ⟨hs.tokens, hs.textEnd, (hs.events.set hposition _).append _,
        prefix_set hs.states hid _, hs.close hsince hm hopen rfl, by simpa using hs.size,
        hs.marker_modify, fun n node hnode => ?_, hs.checkpoint⟩
      rw [Array.getElem?_push] at hnode
      split at hnode
      · cases hnode
        exact .inr hposition
      · exact hs.node n node hnode
  | @abandoned handle m p hm habandon =>
      obtain ⟨-, -, hlast, outer, hopen, rfl⟩ := abandon_eq_ok_iff.1 habandon
      obtain ⟨hposition, hid⟩ := hs.marker handle m hsince hm
      refine ⟨hs.tokens, hs.textEnd, ?_, prefix_set hs.states hid _,
        hs.close hsince hm hopen rfl, by simpa using hs.size, hs.marker_modify, hs.node,
        hs.checkpoint⟩
      dsimp only
      split
      · rw [List.dropLast_eq_take]
        exact hs.events.take (by omega)
      · exact hs.events
  | @rolledBack n k p hk hrollback =>
      obtain ⟨-, rfl⟩ := rollback_eq_ok_iff.1 hrollback
      obtain ⟨hevents, hstates⟩ := hs.checkpoint n k hsince hk
      exact ⟨hs.tokens, hs.textEnd, hs.events.take hevents, prefix_take hs.states hstates,
        hs.openMarkers, hs.size, hs.marker, hs.node, hs.checkpoint⟩

/-- Whatever is done behind a checkpoint, if it closes the markers that it opens and no others, the
rollback succeeds and restores the recorder, but for the links of nodes that were finished before
the checkpoint and wrapped behind it. So it restores the recorder exactly if no such node was
wrapped. -/
theorem rollback_restores {s t : Session} {steps : List Step}
    (hrun : (s.run (.checkpoint :: steps)).2 = some t) (hsince : ∀ step ∈ steps, Since s step)
    (hclosed : ∀ handle, s.markers.size ≤ handle → t.markers[handle]?.join = none) :
    ∃ p, t.step (.rollback s.checkpoints.size) = .ok (.nothing, { t with recorder := p }) ∧
      p = { s.recorder with events := p.events } ∧
      p.events.length = s.recorder.events.length ∧
      Relinked (WrappedAt s steps) s.recorder.events p.events ∧
      ((∀ n, .precede n ∈ steps → s.nodes.size ≤ n) → p = s.recorder) := by
  have hk := checkpoint_since hrun
  have hkeeps : Stays s (WrappedAt s steps) t := by
    refine run_keeps (fun step hmem _ _ hs heffect => hs.effect ?_ (fun n node heq hnode => ?_)
      heffect) (.refl (newHandles_self s)) hrun
    · rcases List.mem_cons.1 hmem with rfl | hmem
      · trivial
      · exact hsince step hmem
    · subst heq
      exact ⟨n, node, (List.mem_cons.1 hmem).resolve_left nofun, hnode, rfl⟩
  -- No later marker is open any more, so that the same ones are open as before.
  have hopen : t.recorder.openMarkers = s.recorder.openMarkers := by
    obtain ⟨newer, heq, hlength⟩ := hkeeps.openMarkers
    have hnone : newHandles s t = ∅ := by
      refine Finset.filter_eq_empty_iff.2 fun handle hmem hle => ?_
      obtain ⟨m, hm⟩ := mem_openHandles.1 hmem
      simpa [hm] using hclosed handle hle
    rw [hnone, Finset.card_empty, List.length_eq_zero_iff] at hlength
    rw [heq, hlength, List.nil_append]
  have hevents := hkeeps.events.take (Nat.le_refl s.recorder.events.length)
  refine ⟨{ s.recorder with events := t.recorder.events.take s.recorder.events.length },
    step_rollback_of_ok hk (rollback_eq_ok_iff.2 ⟨congrArg List.length hopen, ?_⟩), rfl,
    ?_, hevents, fun hold => ?_⟩
  · have hstates := List.prefix_iff_eq_take.1 hkeeps.states
    simp only [Recorder.checkpoint, hkeeps.tokens, hkeeps.textEnd, hopen, ← hstates]
  · rw [List.length_take]
    exact Nat.min_eq_left hkeeps.events.1
  · have hnone : ∀ i < s.recorder.events.length, ¬ WrappedAt s steps i := by
      rintro i - ⟨n, node, hmem, hnode, -⟩
      exact absurd (Array.getElem?_eq_some_iff.1 hnode).1 (Nat.not_lt.2 (hold n hmem))
    rw [hkeeps.events.take_eq hnone]

/-- A rollback over nodes that were finished, wrapped and given up behind the checkpoint. -/
theorem rollback_restores_open_root :
    ∃ s t, ((Session.ofText "a b").run [.start]).2 = some s ∧
      (s.run [.checkpoint, .start, .bumpMany 1, .complete 1 (.node .type), .checkpoint, .precede 0,
        .report .expectedComma, .abandon 2, .rollback 1, .start, .abandon 3]).2 = some t ∧
      t.step (.rollback 0) = .ok (.nothing, { t with recorder := s.recorder }) := by
  let tokens : Array Token := #[⟨.ident, 0, "a"⟩, ⟨.ident, 2, "b"⟩]
  let s : Session := ⟨⟨tokens, 3, 0, [.placeholder], [.pending], [0]⟩, #[some ⟨0, 0⟩], #[], #[]⟩
  let t : Session :=
    ⟨⟨tokens, 3, 1, [.placeholder, .start (.node .type) (some 3), .token .ident, .finish],
        [.pending, .completed, .abandoned], [0]⟩,
      #[some ⟨0, 0⟩, none, none, none], #[⟨1, .node .type⟩], #[⟨0, 1, 1, 1⟩, ⟨1, 4, 2, 1⟩]⟩
  have hrun : (s.run [.checkpoint, .start, .bumpMany 1, .complete 1 (.node .type), .checkpoint,
      .precede 0, .report .expectedComma, .abandon 2, .rollback 1, .start, .abandon 3]).2 =
      some t := by
    decide +kernel
  have hclosed : ∀ handle, s.markers.size ≤ handle → t.markers[handle]?.join = none := by
    intro handle hle
    match handle with
    | 0 => exact absurd hle (by decide)
    | 1 | 2 | 3 => rfl
    | n + 4 => rfl
  obtain ⟨p, hstep, -, -, -, hrestored⟩ := rollback_restores hrun (by simp [Since, s]) hclosed
  refine ⟨s, t, by decide +kernel, hrun, ?_⟩
  rw [← hrestored (by simp [s])]
  exact hstep

/-- The exception is needed: a node that was finished before the checkpoint and wrapped behind it
keeps its link, although the node around it is gone. -/
theorem rollback_keeps_link :
    ∃ s t after, ((Session.ofText "a b").run
        [.start, .start, .bumpMany 1, .complete 1 (.node .type)]).2 = some s ∧
      (s.run [.checkpoint, .precede 0, .bumpMany 1, .complete 2 (.node .type)]).2 = some t ∧
      t.step (.rollback 0) = .ok (.nothing, after) ∧
      s.recorder.events[1]? = some (.start (.node .type) none) ∧
      after.recorder.events[1]? = some (.start (.node .type) (some 3)) := by
  let tokens : Array Token := #[⟨.ident, 0, "a"⟩, ⟨.ident, 2, "b"⟩]
  let s : Session :=
    ⟨⟨tokens, 3, 1, [.placeholder, .start (.node .type) none, .token .ident, .finish],
        [.pending, .completed], [0]⟩,
      #[some ⟨0, 0⟩, none], #[⟨1, .node .type⟩], #[]⟩
  let t : Session :=
    ⟨⟨tokens, 3, 2, [.placeholder, .start (.node .type) (some 3), .token .ident, .finish,
          .start (.node .type) none, .token .ident, .finish],
        [.pending, .completed, .completed], [0]⟩,
      #[some ⟨0, 0⟩, none, none], #[⟨1, .node .type⟩, ⟨4, .node .type⟩], #[⟨1, 4, 2, 1⟩]⟩
  exact ⟨s, t, _, by decide +kernel, by decide +kernel, rfl, rfl, rfl⟩

end PatternSyntax.Proofs.Rollback
