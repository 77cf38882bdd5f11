import PatternSyntax.Proofs.Coverage
import PatternSyntax.Recording.Recorder

/-!
What the steps of a recorder do to a record that outlines have been added to: a node that was begun
before them is finished, given up or put around the first of them, and a checkpoint before them is
gone back to.
-/

namespace PatternSyntax

namespace Outline

mutual

/-- What became of the markers of an outline, in the order in which they were opened. -/
def markerStates : Outline → List MarkerState
  | token _ => []
  | error _ _ => []
  | node _ parts => .completed :: markerStatesAll parts
  | around _ first later => first.markerStates ++ .completed :: markerStatesAll later
  | loose parts => .abandoned :: markerStatesAll parts

/-- What became of the markers of a row of outlines. -/
def markerStatesAll : List Outline → List MarkerState
  | [] => []
  | part :: rest => part.markerStates ++ markerStatesAll rest

end

end Outline

namespace Outline

theorem eventsAll_append (locate : Nat → Nat) (front back : List Outline) :
    eventsAll locate (front ++ back) = eventsAll locate front ++ eventsAll locate back := by
  induction front with
  | nil => rfl
  | cons part front ih => rw [List.cons_append, eventsAll, ih, eventsAll, List.append_assoc]

theorem sizeAll_append (front back : List Outline) :
    sizeAll (front ++ back) = sizeAll front + sizeAll back := by
  induction front with
  | nil => exact (Nat.zero_add _).symm
  | cons part front ih => rw [List.cons_append, sizeAll, ih, sizeAll, Nat.add_assoc]

theorem markerStatesAll_append (front back : List Outline) :
    markerStatesAll (front ++ back) = markerStatesAll front ++ markerStatesAll back := by
  induction front with
  | nil => rfl
  | cons part front ih =>
      rw [List.cons_append, markerStatesAll, ih, markerStatesAll, List.append_assoc]

end Outline

namespace Recorder

/-- The place between the significant tokens before the one with the given index. -/
def cursorAt (p : Recorder) (index : Nat) : Cursor :=
  ⟨index, Terminal.ofTokens (p.tokens.toList.drop index)⟩

/-- The place of the recorder between the significant tokens. -/
def cursor (p : Recorder) : Cursor :=
  p.cursorAt p.index

/-- Records outlines, which end before the token with the given index. -/
def recordAll (p : Recorder) (parts : List Outline) (index : Nat) : Recorder :=
  { p with
    index := index
    events := p.events ++ Outline.eventsAll (offsetOf p.tokens p.textEnd) parts
    markers := p.markers ++ Outline.markerStatesAll parts }

end Recorder

namespace Proofs.Markers

open PatternSyntax.Proofs.Coverage

/-- A recorder behind further events and closed markers. -/
def grow (p : Recorder) (events : List Event) (states : List MarkerState) (index : Nat) :
    Recorder :=
  { p with
    index := index
    events := p.events ++ events
    markers := p.markers ++ states }

theorem grow_grow (p : Recorder) (events later : List Event) (states others : List MarkerState)
    (mid index : Nat) :
    grow (grow p events states mid) later others index =
      grow p (events ++ later) (states ++ others) index := by
  simp [grow]

mutual

theorem pending_notMem_markerStates (outline : Outline) :
    .pending ∉ outline.markerStates := by
  cases outline with
  | token kind => exact List.not_mem_nil
  | error kind index => exact List.not_mem_nil
  | node kind parts =>
      rw [Outline.markerStates, List.mem_cons, not_or]
      exact ⟨nofun, pending_notMem_markerStatesAll parts⟩
  | around kind first later =>
      rw [Outline.markerStates, List.mem_append, List.mem_cons, not_or, not_or]
      exact ⟨pending_notMem_markerStates first, nofun, pending_notMem_markerStatesAll later⟩
  | loose parts =>
      rw [Outline.markerStates, List.mem_cons, not_or]
      exact ⟨nofun, pending_notMem_markerStatesAll parts⟩

theorem pending_notMem_markerStatesAll (parts : List Outline) :
    .pending ∉ Outline.markerStatesAll parts := by
  cases parts with
  | nil => exact List.not_mem_nil
  | cons part rest =>
      rw [Outline.markerStatesAll, List.mem_append, not_or]
      exact ⟨pending_notMem_markerStates part, pending_notMem_markerStatesAll rest⟩

end

mutual

theorem any_isError_events (locate : Nat → Nat) (link : Option Nat) (outline : Outline) :
    (outline.events locate link).any Event.isError = outline.hasError := by
  cases outline with
  | token kind => rfl
  | error kind index => rfl
  | node kind parts =>
      simp [Outline.events, Outline.hasError, Event.isError, any_isError_eventsAll locate parts]
  | around kind first later =>
      simp [Outline.events, Outline.hasError, Event.isError, any_isError_events locate _ first,
        any_isError_eventsAll locate later]
  | loose parts =>
      have hparts := any_isError_eventsAll locate parts
      simp only [Outline.events, Outline.hasError]
      cases hinner : Outline.eventsAll locate parts with
      | nil => rw [← hparts, hinner]
      | cons event events =>
          rw [← hparts, hinner]
          rfl

theorem any_isError_eventsAll (locate : Nat → Nat) (parts : List Outline) :
    (Outline.eventsAll locate parts).any Event.isError = Outline.hasErrorAll parts := by
  cases parts with
  | nil => rfl
  | cons part rest =>
      rw [Outline.eventsAll, List.any_append, any_isError_events locate none part,
        any_isError_eventsAll locate rest, Outline.hasErrorAll]

end

theorem recordAll_recordAll (p : Recorder) (parts later : List Outline) (mid index : Nat) :
    (p.recordAll parts mid).recordAll later index = p.recordAll (parts ++ later) index := by
  simp [Recorder.recordAll, Outline.eventsAll_append, Outline.markerStatesAll_append]

theorem cursorAt_recordAll (p : Recorder) (parts : List Outline) (mid index : Nat) :
    (p.recordAll parts mid).cursorAt index = p.cursorAt index :=
  rfl

theorem recordAll_nil (p : Recorder) : p.recordAll [] p.index = p := by
  simp [Recorder.recordAll, Outline.eventsAll, Outline.markerStatesAll]

theorem length_events_recordAll (p : Recorder) (parts : List Outline) (index : Nat) :
    (p.recordAll parts index).events.length = p.events.length + Outline.sizeAll parts := by
  simp [Recorder.recordAll, Outline.length_eventsAll]

theorem close_start (p : Recorder) (events : List Event) (states : List MarkerState)
    (index : Nat) (state : MarkerState) :
    (grow p.start.2 events states index).close p.start.1.id state =
      .ok (grow p (.placeholder :: events) (state :: states) index) := by
  simp [Recorder.close, Recorder.start, Recorder.record, grow]

theorem complete_start (p : Recorder) (events : List Event) (states : List MarkerState)
    (index : Nat) (kind : SyntaxKind) :
    (grow p.start.2 events states index).complete p.start.1 kind =
      .ok (⟨p.events.length, kind⟩,
        grow p (.start kind none :: (events ++ [.finish])) (.completed :: states) index) := by
  unfold Recorder.complete
  rw [close_start]
  simp [Recorder.start, Recorder.record, grow, bind, Except.bind, pure, Except.pure]

theorem abandon_start (p : Recorder) (events : List Event) (states : List MarkerState)
    (index : Nat) :
    (grow p.start.2 events states index).abandon p.start.1 =
      .ok (grow p (if events = [] then [] else .placeholder :: events)
        (.abandoned :: states) index) := by
  unfold Recorder.abandon
  rw [close_start]
  cases events with
  | nil => simp [Recorder.start, Recorder.record, grow, bind, Except.bind, pure, Except.pure]
  | cons event events =>
      simp [Recorder.start, Recorder.record, grow, bind, Except.bind, pure, Except.pure]

theorem events_loose (locate : Nat → Nat) (link : Option Nat) (parts : List Outline) :
    (Outline.loose parts).events locate link =
      if Outline.eventsAll locate parts = [] then []
      else .placeholder :: Outline.eventsAll locate parts := by
  rw [Outline.events]
  split
  · rw [‹Outline.eventsAll locate parts = []›, if_pos rfl]
  · rw [if_neg ‹_›]

theorem events_lead (locate : Nat → Nat) (outline : Outline) (hnode : IsNode outline) :
    ∃ kind, outline.top? = some kind ∧
      (outline.events locate none)[outline.lead]? = some (.start (.node kind) none) ∧
      ∀ link, (outline.events locate none).set outline.lead (.start (.node kind) link) =
        outline.events locate link := by
  cases outline with
  | token kind => cases hnode
  | error kind index => cases hnode
  | loose parts => cases hnode
  | node kind parts => exact ⟨kind, rfl, rfl, fun _ => rfl⟩
  | around kind first later =>
      refine ⟨kind, rfl, ?_, fun link => ?_⟩
      · simp [Outline.events, Outline.lead, Outline.length_events]
      · simp [Outline.events, Outline.lead, Outline.length_events]

theorem precede_eq (p : Recorder) (locate : Nat → Nat) {outline : Outline}
    (hnode : IsNode outline) {kind : NodeKind} (htop : outline.top? = some kind)
    (states : List MarkerState) (index : Nat) :
    (grow p (outline.events locate none) states index).precede
        ⟨p.events.length + outline.lead, .node kind⟩ =
      .ok (grow p (outline.events locate (some (outline.size - outline.lead))) states
        index).start := by
  obtain ⟨found, hfound, hstart, hset⟩ := events_lead locate outline hnode
  cases hfound.symm.trans htop
  have hlead : outline.lead < outline.size := by
    rw [← Outline.length_events locate none]
    exact (List.getElem?_eq_some_iff.1 hstart).1
  simp only [Recorder.precede, Recorder.start, Recorder.record, grow]
  have hat : (p.events ++ (outline.events locate none ++ [Event.placeholder]))[
      p.events.length + outline.lead]? = some (.start (.node kind) none) := by
    rw [List.getElem?_append_right (Nat.le_add_right _ _), Nat.add_sub_cancel_left,
      List.getElem?_append_left (by rwa [Outline.length_events]), hstart]
  have hlink : p.events.length + outline.size - (p.events.length + outline.lead) =
      outline.size - outline.lead := by omega
  simp [hat, hset, hlead, Outline.length_events, hlink]

theorem rollback_grow (p : Recorder) (events : List Event) (states : List MarkerState)
    (index : Nat) : (grow p events states index).rollback p.checkpoint = .ok p := by
  simp [Recorder.rollback, Recorder.checkpoint, grow]

end Proofs.Markers

end PatternSyntax
