import PatternSyntax.Proofs.RealizedTexts
import PatternSyntax.Recording.Session

/-!
What the operations of a recorder do, each said once: when it succeeds, and what it leaves behind.
All other operations only add to the record.
-/

namespace PatternSyntax

/-- What a procedure that can be applied by name records. -/
def RuleName.rule (name : RuleName) (r : Rules) : Grammar (Option Outline) :=
  match name with
  | pattern => return some (← r.pattern)
  | primaryPattern => return some (← Grammar.primaryPattern r)
  | modifierList allowed => return some (← Grammar.modifierList r allowed)
  | annot => return some (← r.annot)
  | type flags => r.type flags
  | codeReference eatLastDot arguments =>
    return some (← Grammar.codeReference r eatLastDot arguments)
  | expression => r.expression
  | conditional arrow => r.conditional arrow
  | conditionalAnd arrow => r.binary Grammar.guardLevel arrow
  | arrayInitializer => return some (← r.arrayInitializer)
  | switchLabel => Grammar.switchLabel r

namespace Proofs.Operations

open PatternSyntax.Proofs.Markers
open PatternSyntax.Proofs.Realization

variable {p q : Recorder} {m : Marker}

theorem close_eq_ok_iff {id : Nat} {state : MarkerState} :
    p.close id state = .ok q ↔
      p.markers[id]? = some .pending ∧ ∃ outer, p.openMarkers = id :: outer ∧
        q = { p with markers := p.markers.set id state, openMarkers := outer } := by
  unfold Recorder.close
  constructor
  · intro h
    split at h
    · cases h
    · split at h
      · split at h
        · subst id
          exact ⟨‹_›, _, ‹_›, (Except.ok.inj h).symm⟩
        · cases h
      · cases h
    · cases h
  · rintro ⟨hstate, outer, hopen, rfl⟩
    simp [hstate, hopen]

theorem complete_eq_ok_iff {kind : SyntaxKind} {node : CompletedNode} :
    p.complete m kind = .ok (node, q) ↔
      p.markers[m.id]? = some .pending ∧ p.events[m.position]? = some .placeholder ∧
        node = ⟨m.position, kind⟩ ∧ ∃ outer, p.openMarkers = m.id :: outer ∧
          q = { p with
            events := p.events.set m.position (.start kind none) ++ [.finish]
            markers := p.markers.set m.id .completed
            openMarkers := outer } := by
  unfold Recorder.complete
  constructor
  · intro h
    cases hclose : p.close m.id .completed with
    | error fault => simp [hclose, bind, Except.bind] at h
    | ok closed =>
        obtain ⟨hstate, outer, hopen, rfl⟩ := close_eq_ok_iff.1 hclose
        simp only [hclose, bind, Except.bind] at h
        split at h
        · cases h
        · cases h
          exact ⟨hstate, ‹_›, rfl, outer, hopen, rfl⟩
        · cases h
  · rintro ⟨hstate, hevent, rfl, outer, hopen, rfl⟩
    rw [close_eq_ok_iff.2 ⟨hstate, outer, hopen, rfl⟩]
    simp [bind, Except.bind, pure, Except.pure, hevent, Recorder.record]

theorem abandon_eq_ok_iff :
    p.abandon m = .ok q ↔
      p.markers[m.id]? = some .pending ∧ p.events ≠ [] ∧
        (m.position + 1 = p.events.length → p.events[m.position]? = some .placeholder) ∧
        ∃ outer, p.openMarkers = m.id :: outer ∧
          q = { p with
            events := if m.position + 1 = p.events.length then p.events.dropLast else p.events
            markers := p.markers.set m.id .abandoned
            openMarkers := outer } := by
  unfold Recorder.abandon
  constructor
  · intro h
    cases hclose : p.close m.id .abandoned with
    | error fault => simp [hclose, bind, Except.bind] at h
    | ok closed =>
        obtain ⟨hstate, outer, hopen, rfl⟩ := close_eq_ok_iff.1 hclose
        simp only [hclose, bind, Except.bind, List.isEmpty_iff] at h
        split at h
        · cases h
        · split at h
          · split at h
            · cases h
              exact ⟨hstate, ‹_›, fun _ => ‹_›, outer, hopen, by rw [if_pos ‹_›]⟩
            · cases h
          · cases h
            exact ⟨hstate, ‹_›, fun hlast => absurd hlast ‹_›, outer, hopen, by rw [if_neg ‹_›]⟩
  · rintro ⟨hstate, hsome, hlast, outer, hopen, rfl⟩
    rw [close_eq_ok_iff.2 ⟨hstate, outer, hopen, rfl⟩]
    simp only [bind, Except.bind, List.isEmpty_iff, if_neg hsome]
    split
    · simp [hlast ‹_›, pure, Except.pure]
    · rfl

theorem precede_eq_ok_iff {node : CompletedNode} :
    p.precede node = .ok (m, q) ↔
      ∃ kind link, p.events[node.position]? = some (.start kind link) ∧ m = p.start.1 ∧
        q = { p.start.2 with
          events := p.events.set node.position
            (.start kind (some (p.events.length - node.position))) ++ [.placeholder] } := by
  unfold Recorder.precede
  constructor
  · intro h
    simp only [Recorder.start, Recorder.record] at h
    split at h
    · cases h
    · rename_i kind link hevent
      have hlt : node.position < p.events.length := by
        refine Nat.lt_of_not_le fun hge => ?_
        rw [List.getElem?_append_right hge, List.getElem?_singleton] at hevent
        split at hevent <;> cases hevent
      rw [List.getElem?_append_left hlt] at hevent
      cases h
      exact ⟨kind, link, hevent, rfl, by
        simp [Recorder.start, Recorder.record, List.set_append_left, hlt]⟩
    · cases h
  · rintro ⟨kind, link, hevent, rfl, rfl⟩
    have hlt : node.position < p.events.length := (List.getElem?_eq_some_iff.1 hevent).1
    have hlater : (p.events ++ [.placeholder])[node.position]? = some (.start kind link) := by
      rw [List.getElem?_append_left hlt, hevent]
    simp only [Recorder.start, Recorder.record, hlater]
    simp [List.set_append_left, hlt]

theorem rollback_eq_ok_iff {k : Checkpoint} :
    p.rollback k = .ok q ↔ p.openMarkers.length = k.openMarkers ∧
      q = { p with
        index := k.index
        events := p.events.take k.events
        markers := p.markers.take k.markers } := by
  unfold Recorder.rollback
  split
  · simp_all [eq_comm]
  · simp_all

/-- The second recorder has gone on from the first one, and opened and closed nothing. -/
def Grows (p q : Recorder) : Prop :=
  ∃ events states index, q = grow p events states index

theorem Grows.refl (p : Recorder) : Grows p p :=
  ⟨[], [], p.index, by simp [grow]⟩

theorem Grows.trans {r : Recorder} (h : Grows p q) (h' : Grows q r) : Grows p r := by
  obtain ⟨events, states, index, rfl⟩ := h
  obtain ⟨later, others, stop, rfl⟩ := h'
  exact ⟨_, _, _, grow_grow ..⟩

theorem grows_record (p : Recorder) (event : Event) : Grows p (p.record event) :=
  ⟨[event], [], p.index, by simp [grow, Recorder.record]⟩

theorem grows_report (p : Recorder) (kind : ErrorKind) : Grows p (p.report kind) :=
  grows_record ..

theorem grows_bump (p : Recorder) : Grows p p.bump := by
  unfold Recorder.bump
  split
  · rename_i kind _
    exact ⟨[.token kind], [], p.index + 1, by simp [grow, Recorder.record]⟩
  · exact .refl p

theorem grows_bumpMany (p : Recorder) (n : Nat) : Grows p (p.bumpMany n) := by
  unfold Recorder.bumpMany
  induction min n (p.tokens.size - p.index) with
  | zero => exact .refl p
  | succ n ih => exact ih.trans (grows_bump _)

theorem grows_eat (p : Recorder) (kind : TokenKind) : Grows p (p.eat kind).2 := by
  unfold Recorder.eat
  split
  · exact grows_bump p
  · exact .refl p

theorem grows_expect (p : Recorder) (kind : TokenKind) (missing : ErrorKind) :
    Grows p (p.expect kind missing).2 := by
  unfold Recorder.expect
  split
  · exact grows_bump p
  · exact grows_report p missing

theorem grows_recordAll (p : Recorder) (parts : List Outline) (index : Nat) :
    Grows p (p.recordAll parts index) :=
  ⟨_, _, index, rfl⟩

theorem realizes_name {q : Procedures} {r : Rules} (h : Agree q r) (name : RuleName) :
    Realizes .found (name.procedure q) (name.rule r) := by
  cases name with
  | pattern => exact fun p => (h.pattern p).found_some
  | primaryPattern => exact fun p => (realizes_primaryPattern h p).found_some
  | modifierList allowed => exact fun p => (realizes_modifierList h allowed p).found_some
  | annot => exact fun p => (h.annot p).found_some
  | type flags => exact (h.type flags).found_of_option
  | codeReference eatLastDot arguments =>
      exact fun p => (realizes_codeReference h eatLastDot arguments p).found_some
  | expression => exact (realizes_expression h).found_of_option
  | conditional arrow => exact (h.conditional arrow).found_of_option
  | conditionalAnd arrow => exact (h.binary admits_guard arrow).found_of_option
  | arrayInitializer => exact fun p => (h.arrayInitializer p).found_some
  | switchLabel => exact realizes_switchLabel h

theorem outcome_run (name : RuleName) (p : Recorder) :
    Outcome .found p (Grammar.deepEnough name.rule p.cursor) (name.run p) :=
  outcome_deepEnough fun _ _ h => realizes_name h name p

/-- A procedure that is applied adds to the record, and so does the node that it finds. -/
theorem grows_run {name : RuleName} {found : Option CompletedNode}
    (h : name.run p = .ok (found, q)) :
    Grows p q ∧ ∀ node ∈ found, p.events.length ≤ node.position := by
  have hrun := outcome_run name p
  rw [h] at hrun
  obtain ⟨outline, parts, i, -, -, hshows, rfl⟩ := hrun.exists_of_ok
  refine ⟨grows_recordAll .., fun node hnode => ?_⟩
  cases hnode
  cases outline with
  | none => cases hshows
  | some outline =>
      obtain ⟨-, kind, -, rfl⟩ := hshows
      exact Nat.le_trans (Nat.le_add_right _ _) (Nat.le_add_right _ _)

theorem eq_of_run_isPattern {answer : Bool}
    (h : Procedure.deepEnough Procedure.isPattern p = .ok (answer, q)) : q = p := by
  have hrun := outcome_isPattern p
  rw [h] at hrun
  obtain ⟨value, parts, i, hlook, -, -, rfl⟩ := hrun.exists_of_ok
  obtain ⟨inner, -, hinner⟩ := Runs.exists_of_lookahead_ok hlook
  cases hinner
  exact recordAll_nil p

deriving instance DecidableEq for Recorder, Session

/-- What a step does to a session. Apart from the steps that open or close a marker, and from the
way back to a checkpoint, the record only grows. -/
inductive Effect (s : Session) : Step → Session → Prop
  | grown {step : Step} {p : Recorder} {nodes : Array CompletedNode}
      {checkpoints : Array Checkpoint} : Grows s.recorder p →
      (∀ node ∈ nodes, s.recorder.events.length ≤ node.position) →
      (∀ k ∈ checkpoints, k = s.recorder.checkpoint) →
      Effect s step { s with
        recorder := p, nodes := s.nodes ++ nodes, checkpoints := s.checkpoints ++ checkpoints }
  | started : Effect s .start { s with
      recorder := s.recorder.start.2, markers := s.markers.push (some s.recorder.start.1) }
  | preceded {n : Nat} {node : CompletedNode} {m : Marker} {p : Recorder} :
      s.nodes[n]? = some node → s.recorder.precede node = .ok (m, p) →
      Effect s (.precede n) { s with recorder := p, markers := s.markers.push (some m) }
  | completed {handle : Nat} {m : Marker} {kind : SyntaxKind} {node : CompletedNode}
      {p : Recorder} : s.markers[handle]? = some (some m) →
      s.recorder.complete m kind = .ok (node, p) →
      Effect s (.complete handle kind) { s with
        recorder := p
        markers := s.markers.modify handle fun _ => none
        nodes := s.nodes.push node }
  | abandoned {handle : Nat} {m : Marker} {p : Recorder} :
      s.markers[handle]? = some (some m) → s.recorder.abandon m = .ok p →
      Effect s (.abandon handle) { s with
        recorder := p, markers := s.markers.modify handle fun _ => none }
  | rolledBack {n : Nat} {k : Checkpoint} {p : Recorder} : s.checkpoints[n]? = some k →
      s.recorder.rollback k = .ok p → Effect s (.rollback n) { s with recorder := p }

variable {s t : Session} {step : Step}

theorem Effect.of_grows {p : Recorder} (h : Grows s.recorder p) :
    Effect s step { s with recorder := p } := by
  have hgrown : Effect s step { s with
      recorder := p, nodes := s.nodes ++ #[], checkpoints := s.checkpoints ++ #[] } :=
    .grown h (by simp) (by simp)
  simpa using hgrown

theorem Effect.refl (s : Session) (step : Step) : Effect s step s :=
  .of_grows (.refl _)

theorem Effect.of_node {p : Recorder} {node : CompletedNode} (h : Grows s.recorder p)
    (hnode : s.recorder.events.length ≤ node.position) :
    Effect s step { s with recorder := p, nodes := s.nodes.push node } := by
  have hgrown : Effect s step { s with
      recorder := p, nodes := s.nodes ++ #[node], checkpoints := s.checkpoints ++ #[] } :=
    .grown h (by simpa using hnode) (by simp)
  simpa using hgrown

theorem Effect.of_checkpoint (s : Session) (step : Step) :
    Effect s step { s with checkpoints := s.checkpoints.push s.recorder.checkpoint } := by
  have hgrown : Effect s step { s with
      nodes := s.nodes ++ #[], checkpoints := s.checkpoints ++ #[s.recorder.checkpoint] } :=
    .grown (.refl s.recorder) (by simp) (by simp)
  simpa using hgrown

theorem exists_of_lift_ok {α β : Type} {outcome : Except Fault α} {rest : α → Except Refusal β}
    {result : β} (h : (Session.lift outcome >>= rest) = .ok result) :
    ∃ value, outcome = .ok value ∧ rest value = .ok result := by
  cases outcome with
  | error fault => cases h
  | ok value => exact ⟨value, rfl, h⟩

theorem exists_of_find_ok {α β : Type} {handle : Option α} {rest : α → Except Refusal β}
    {result : β} (h : (Session.find handle >>= rest) = .ok result) :
    ∃ value, handle = some value ∧ rest value = .ok result := by
  cases handle with
  | none => cases h
  | some value => exact ⟨value, rfl, h⟩

theorem exists_of_takeMarker_ok {β : Type} {handle : Nat}
    {rest : Marker × Session → Except Refusal β} {result : β}
    (h : (s.takeMarker handle >>= rest) = .ok result) :
    ∃ m, s.markers[handle]? = some (some m) ∧
      rest (m, { s with markers := s.markers.modify handle fun _ => none }) = .ok result := by
  unfold Session.takeMarker at h
  cases hfound : s.markers[handle]?.join with
  | none => rw [hfound] at h; cases h
  | some m =>
      rw [hfound] at h
      exact ⟨m, Option.join_eq_some_iff.1 hfound, h⟩

theorem effect_of_step {answer : Answer} (h : s.step step = .ok (answer, t)) : Effect s step t := by
  cases step with
  | start =>
      cases h
      exact .started
  | complete marker kind =>
      obtain ⟨m, hm, h⟩ := exists_of_takeMarker_ok h
      obtain ⟨⟨node, p⟩, hp, h⟩ := exists_of_lift_ok h
      cases h
      exact .completed hm hp
  | abandon marker =>
      obtain ⟨m, hm, h⟩ := exists_of_takeMarker_ok h
      obtain ⟨p, hp, h⟩ := exists_of_lift_ok h
      cases h
      exact .abandoned hm hp
  | drop marker =>
      obtain ⟨m, -, h⟩ := exists_of_takeMarker_ok h
      cases h
  | precede n =>
      obtain ⟨node, hnode, h⟩ := exists_of_find_ok h
      obtain ⟨⟨m, p⟩, hp, h⟩ := exists_of_lift_ok h
      cases h
      exact .preceded hnode hp
  | checkpoint =>
      cases h
      exact .of_checkpoint s _
  | rollback n =>
      obtain ⟨k, hk, h⟩ := exists_of_find_ok h
      obtain ⟨p, hp, h⟩ := exists_of_lift_ok h
      cases h
      exact .rolledBack hk hp
  | hasErrorsSince n =>
      obtain ⟨k, -, h⟩ := exists_of_find_ok h
      cases h
      exact .refl s _
  | nth n => cases h; exact .refl s _
  | nthAt n kind => cases h; exact .refl s _
  | isAtComposite kinds => cases h; exact .refl s _
  | isAtEnd => cases h; exact .refl s _
  | bumpMany n => cases h; exact .of_grows (grows_bumpMany _ n)
  | reportUnexpected => cases h; exact .of_grows (grows_report ..)
  | eat kind => cases h; exact .of_grows (grows_eat ..)
  | expect kind missing => cases h; exact .of_grows (grows_expect ..)
  | report kind => cases h; exact .of_grows (grows_report ..)
  | isPattern =>
      obtain ⟨⟨value, p⟩, hp, h⟩ := exists_of_lift_ok h
      cases h
      exact .of_grows (eq_of_run_isPattern hp ▸ .refl _)
  | apply name =>
      obtain ⟨⟨found, p⟩, hp, h⟩ := exists_of_lift_ok h
      obtain ⟨hgrows, hfound⟩ := grows_run hp
      cases found with
      | none =>
          cases h
          exact .of_grows hgrows
      | some node =>
          cases h
          exact .of_node hgrows (hfound node rfl)

theorem step_complete_of_ok {handle : Nat} {m : Marker} {kind : SyntaxKind} {node : CompletedNode}
    {p : Recorder} (hm : s.markers[handle]? = some (some m))
    (hp : s.recorder.complete m kind = .ok (node, p)) :
    s.step (.complete handle kind) = .ok (.node s.nodes.size node.kind, { s with
      recorder := p
      markers := s.markers.modify handle fun _ => none
      nodes := s.nodes.push node }) := by
  simp only [Session.step, Session.takeMarker, hm, Option.join_some, Session.find, bind,
    Except.bind, pure, Except.pure, hp]
  rfl

theorem step_abandon_of_ok {handle : Nat} {m : Marker} {p : Recorder}
    (hm : s.markers[handle]? = some (some m)) (hp : s.recorder.abandon m = .ok p) :
    s.step (.abandon handle) = .ok (.nothing, { s with
      recorder := p, markers := s.markers.modify handle fun _ => none }) := by
  simp only [Session.step, Session.takeMarker, hm, Option.join_some, Session.find, bind,
    Except.bind, pure, Except.pure, hp]
  rfl

theorem step_precede_of_ok {n : Nat} {node : CompletedNode} {m : Marker} {p : Recorder}
    (hnode : s.nodes[n]? = some node) (hp : s.recorder.precede node = .ok (m, p)) :
    s.step (.precede n) = .ok (.handle s.markers.size, { s with
      recorder := p, markers := s.markers.push (some m) }) := by
  simp only [Session.step, hnode, Session.find, bind, Except.bind, hp]
  rfl

theorem step_rollback_of_ok {n : Nat} {k : Checkpoint} {p : Recorder}
    (hk : s.checkpoints[n]? = some k) (hp : s.recorder.rollback k = .ok p) :
    s.step (.rollback n) = .ok (.nothing, { s with recorder := p }) := by
  simp only [Session.step, hk, Session.find, bind, Except.bind, hp]
  rfl

theorem step_rollback_of_ne {n : Nat} {k : Checkpoint} (hk : s.checkpoints[n]? = some k)
    (hne : s.recorder.openMarkers.length ≠ k.openMarkers) :
    s.step (.rollback n) = .error (.fault .rollbackUnbalanced) := by
  simp only [Session.step, hk, Session.find, bind, Except.bind, Recorder.rollback, if_neg hne]
  rfl

theorem run_keeps {I : Session → Prop} {steps : List Step}
    (hstep : ∀ step ∈ steps, ∀ s t, I s → Effect s step t → I t) (hs : I s)
    (hrun : (s.run steps).2 = some t) : I t := by
  induction steps generalizing s with
  | nil =>
      cases hrun
      exact hs
  | cons first rest ih =>
      rw [Session.run] at hrun
      split at hrun
      · cases hrun
      · rename_i answer mid hmid
        have hmid' := hstep first List.mem_cons_self s mid hs (effect_of_step hmid)
        exact ih (fun step hmem => hstep step (List.mem_cons_of_mem _ hmem)) hmid' hrun

end Proofs.Operations

end PatternSyntax
