import PatternSyntax.Proofs.Layout

/-!
A run that is recorded in a session, and the same run on a stack of open nodes: move by move, the
recording stays that of the tree that grows. At the end the tree of the recording is this tree.
-/

namespace PatternSyntax.Proofs.Simulation

open PatternSyntax.Proofs.Dressing
open PatternSyntax.Proofs.Grafts
open PatternSyntax.Proofs.Growing
open PatternSyntax.Proofs.Layout
open PatternSyntax.Proofs.Operations
open PatternSyntax.Proofs.Shapes

/-- The markers that are open in a session, innermost first. Each is known by its handle. -/
structure Held (s : Session) (opened : List Marker) : Prop where
  openMarkers_eq : s.recorder.openMarkers = opened.map (·.id)
  nodup : (opened.map (·.id)).Nodup
  length_eq : s.recorder.markers.length = s.markers.size
  held : ∀ m ∈ opened,
    s.markers[m.id]? = some (some m) ∧ s.recorder.markers[m.id]? = some .pending

namespace Held

variable {s t : Session} {opened : List Marker} {m : Marker}

theorem push (h : Held s opened) (hmarkers : t.markers = s.markers.push (some s.recorder.start.1))
    (hstates : t.recorder.markers = s.recorder.start.2.markers)
    (hopen : t.recorder.openMarkers = s.recorder.start.2.openMarkers) :
    Held t (s.recorder.start.1 :: opened) where
  openMarkers_eq := by
    rw [hopen, List.map_cons, ← h.openMarkers_eq]
    rfl
  nodup := by
    refine List.nodup_cons.2 ⟨fun hmem => ?_, h.nodup⟩
    obtain ⟨m, hm, hid⟩ := List.mem_map.1 hmem
    exact ((List.getElem?_eq_some_iff.1 (h.held m hm).2).1.trans_eq rfl).ne hid
  length_eq := by
    rw [hstates, hmarkers, Array.size_push, ← h.length_eq]
    exact List.length_append
  held := by
    rw [hmarkers, hstates]
    refine List.forall_mem_cons.2 ⟨⟨?_, List.getElem?_concat_length⟩, fun m hm => ⟨?_, ?_⟩⟩
    · rw [show s.recorder.start.1.id = s.markers.size from h.length_eq]
      exact Array.getElem?_push_size
    · have hlt := (Array.getElem?_eq_some_iff.1 (h.held m hm).1).1
      rw [Array.getElem?_push_lt hlt, ← Array.getElem?_eq_getElem hlt]
      exact (h.held m hm).1
    · exact getElem?_append_of_some _ (h.held m hm).2

theorem pop (h : Held s (m :: opened)) {state : MarkerState}
    (hmarkers : t.markers = s.markers.modify m.id fun _ => none)
    (hstates : t.recorder.markers = s.recorder.markers.set m.id state)
    (hopen : t.recorder.openMarkers = opened.map (·.id)) : Held t opened where
  openMarkers_eq := hopen
  nodup := (List.nodup_cons.1 h.nodup).2
  length_eq := by rw [hstates, hmarkers, List.length_set, Array.size_modify, h.length_eq]
  held := by
    intro other hother
    have hne : m.id ≠ other.id := fun heq =>
      (List.nodup_cons.1 h.nodup).1 (List.mem_map.2 ⟨other, hother, heq.symm⟩)
    rw [hmarkers, hstates, Array.getElem?_modify, if_neg hne, List.getElem?_set_ne hne]
    exact h.held other (List.mem_cons_of_mem _ hother)

end Held

def markersOf (plots : List Plot) : List Marker :=
  plots.map fun plot => ⟨plot.handle, plot.place⟩

/-- The recording of a session is that of a tree that grows. -/
structure Records (s : Session) (g : Growth) (plots : List Plot) : Prop where
  standing : Standing s.recorder.events s.nodes.toList plots
  held : Held s (markersOf plots)
  stack : plots.map (·.sprout) = g.top :: g.outer
  finished : s.nodes.size = g.finished
  pending : s.recorder.tokens.toList.drop s.recorder.index = g.pending
  textEnd : s.recorder.textEnd = g.textEnd
  errors : errorsOf (bracketsOf plots) = g.errors

/-- The steps of moves lead from one session to another. -/
def Goes (s : Session) (moves : List Move) (t : Session) : Prop :=
  ∀ later, (s.run (stepsOf s.markers.size s.recorder.openMarkers (moves ++ later))).2 =
    (t.run (stepsOf t.markers.size t.recorder.openMarkers later)).2

theorem Goes.trans {s mid t : Session} {front back : List Move} (h : Goes s front mid)
    (h' : Goes mid back t) : Goes s (front ++ back) t := by
  intro later
  rw [List.append_assoc, h, h']

theorem goes_of_step {s t : Session} {m : Move} {step : Step} {answer : Answer}
    (hstep : s.step step = .ok (answer, t))
    (hsteps : ∀ later, stepsOf s.markers.size s.recorder.openMarkers (m :: later) =
      step :: stepsOf t.markers.size t.recorder.openMarkers later) : Goes s [m] t := by
  intro later
  rw [List.cons_append, List.nil_append, hsteps]
  simp only [Session.run, hstep]

section Moves

variable {s : Session} {g g' : Growth} {plot : Plot} {outer plots : List Plot}
  {mayGiveUp : Sprout → Bool}

theorem Records.openMarkers_eq (h : Records s g plots) :
    s.recorder.openMarkers = plots.map (·.handle) := by
  rw [h.held.openMarkers_eq, markersOf, List.map_map]
  rfl

theorem Records.exists_plot (h : Records s g plots) : ∃ plot outer, plots = plot :: outer ∧
    plot.sprout = g.top ∧ outer.map (·.sprout) = g.outer :=
  List.map_eq_cons_iff.1 h.stack

theorem records_start (h : Records s g plots) (hmove : g.move mayGiveUp .start = some g') :
    ∃ t plots', Goes s [.start] t ∧ Records t g' plots' := by
  cases hmove
  have hstep : s.step .start = .ok (.handle s.markers.size, { s with
      recorder := s.recorder.start.2, markers := s.markers.push (some s.recorder.start.1) }) := rfl
  refine ⟨_, _, goes_of_step hstep fun later => ?_, {
    standing := h.standing.start s.recorder.markers.length
    held := h.held.push rfl rfl rfl
    stack := by rw [List.map_cons, h.stack]
    finished := h.finished
    pending := h.pending
    textEnd := h.textEnd
    errors := by simpa [errorsOf] using h.errors }⟩
  rw [stepsOf, Array.size_push, ← h.held.length_eq]
  rfl

/-- A session in which the innermost open node has been finished. -/
def finished (s : Session) (plot : Plot) (outer : List Plot) (kind : SyntaxKind) : Session :=
  { s with
    recorder := { s.recorder with
      events := s.recorder.events.set plot.place (.start kind none) ++ [.finish]
      markers := s.recorder.markers.set plot.handle .completed
      openMarkers := outer.map (·.handle) }
    markers := s.markers.modify plot.handle fun _ => none
    nodes := s.nodes.push ⟨plot.place, kind⟩ }

theorem goes_complete (h : Records s g (plot :: outer)) (kind : SyntaxKind) :
    Goes s [.complete kind] (finished s plot outer kind) := by
  have hopen := h.openMarkers_eq
  obtain ⟨hhandle, hpending⟩ := h.held.held ⟨plot.handle, plot.place⟩ List.mem_cons_self
  have hcomplete : s.recorder.complete ⟨plot.handle, plot.place⟩ kind =
      .ok (⟨plot.place, kind⟩, (finished s plot outer kind).recorder) :=
    complete_eq_ok_iff.2
      ⟨hpending, h.standing.undecided plot List.mem_cons_self, rfl, _, hopen, rfl⟩
  have hsize : (finished s plot outer kind).markers.size = s.markers.size := Array.size_modify
  refine goes_of_step (step_complete_of_ok hhandle hcomplete) fun later => ?_
  rw [stepsOf, hopen]
  exact congrArg (fun size => _ :: stepsOf size _ later) hsize.symm

theorem records_complete {kind : SyntaxKind} (h : Records s g plots)
    (hmove : g.move mayGiveUp (.complete kind) = some g') :
    ∃ t plots', Goes s [.complete kind] t ∧ Records t g' plots' := by
  obtain ⟨sprout, sprouts, hstack, rfl⟩ := Growth.complete_eq_some_iff.1 hmove
  obtain ⟨plot, rest, rfl, htop, hrest⟩ := h.exists_plot
  rw [hstack] at hrest
  obtain ⟨parent, outer, rfl, rfl, rfl⟩ := List.map_eq_cons_iff.1 hrest
  have hnodes : (finished s plot (parent :: outer) kind).nodes.toList =
      s.nodes.toList ++ [⟨plot.place, kind⟩] := Array.toList_push
  have hstanding := h.standing.complete kind
  rw [Array.length_toList, h.finished, htop, ← hnodes] at hstanding
  refine ⟨_, _, goes_complete h kind, {
    standing := hstanding
    held := h.held.pop rfl rfl (by simp [finished])
    stack := rfl
    finished := by simp [finished, h.finished]
    pending := h.pending
    textEnd := h.textEnd
    errors := by simpa [errorsOf] using h.errors }⟩

/-- A session in which the innermost open node has been given up. -/
def givenUp (s : Session) (plot : Plot) (outer : List Plot) : Session :=
  { s with
    recorder := { s.recorder with
      events := if plot.place + 1 = s.recorder.events.length then s.recorder.events.dropLast
        else s.recorder.events
      markers := s.recorder.markers.set plot.handle .abandoned
      openMarkers := outer.map (·.handle) }
    markers := s.markers.modify plot.handle fun _ => none }

theorem goes_abandon (h : Records s g (plot :: outer)) :
    Goes s [.abandon] (givenUp s plot outer) := by
  have hopen := h.openMarkers_eq
  obtain ⟨hhandle, hpending⟩ := h.held.held ⟨plot.handle, plot.place⟩ List.mem_cons_self
  have hsome : s.recorder.events ≠ [] :=
    List.ne_nil_of_length_pos (Nat.zero_lt_of_lt (h.standing.place_lt List.mem_cons_self))
  have habandon : s.recorder.abandon ⟨plot.handle, plot.place⟩ =
      .ok (givenUp s plot outer).recorder :=
    abandon_eq_ok_iff.2 ⟨hpending, hsome,
      fun _ => h.standing.undecided plot List.mem_cons_self, _, hopen, rfl⟩
  have hsize : (givenUp s plot outer).markers.size = s.markers.size := Array.size_modify
  refine goes_of_step (step_abandon_of_ok hhandle habandon) fun later => ?_
  rw [stepsOf, hopen]
  exact congrArg (fun size => _ :: stepsOf size _ later) hsize.symm

theorem standing_givenUp {parent : Plot} (h : Records s g (plot :: parent :: outer))
    (hwraps : plot.sprout.wraps = true → plot.sprout.used = true) :
    ∃ row, errorsOf row = errorsOf plot.row ∧
      Standing (givenUp s plot (parent :: outer)).recorder.events s.nodes.toList
        ({ parent with row := parent.row ++ row, sprout := parent.sprout.takeIn plot.sprout } ::
          outer) := by
  have hlast := h.standing.extends_length.2.1
  cases hused : plot.sprout.used with
  | true =>
      have hevents : (givenUp s plot (parent :: outer)).recorder.events = s.recorder.events :=
        if_neg fun heq => by simp [hlast.2 heq] at hused
      exact ⟨.opening plot.place :: plot.row, errorsOf_opening .., hevents ▸ h.standing.abandon hused⟩
  | false =>
      have hevents : (givenUp s plot (parent :: outer)).recorder.events =
          s.recorder.events.dropLast := if_pos (hlast.1 hused)
      have hwraps' : plot.sprout.wraps = false :=
        Bool.eq_false_iff.2 fun heq => by simp [hwraps heq] at hused
      obtain ⟨hrow, hstanding⟩ := h.standing.takeBack hused hwraps'
      rw [← hevents] at hstanding
      exact ⟨[], by rw [hrow], by simpa using hstanding⟩

theorem records_abandon (hgiven : ∀ s, mayGiveUp s = true → s.wraps = true → s.used = true)
    (h : Records s g plots) (hmove : g.move mayGiveUp .abandon = some g') :
    ∃ t plots', Goes s [.abandon] t ∧ Records t g' plots' := by
  obtain ⟨hallowed, sprout, sprouts, hstack, rfl⟩ := Growth.abandon_eq_some_iff.1 hmove
  obtain ⟨plot, rest, rfl, htop, hrest⟩ := h.exists_plot
  rw [hstack] at hrest
  obtain ⟨parent, outer, rfl, rfl, rfl⟩ := List.map_eq_cons_iff.1 hrest
  obtain ⟨row, herrors, hstanding⟩ := standing_givenUp h (htop ▸ hgiven _ hallowed)
  exact ⟨_, _, goes_abandon h, {
    standing := hstanding
    held := h.held.pop rfl rfl (by simp [givenUp])
    stack := by rw [← htop]; rfl
    finished := h.finished
    pending := h.pending
    textEnd := h.textEnd
    errors := by simpa [herrors] using h.errors }⟩

/-- A session in which a node has been begun around the one at a place. -/
def wrapped (s : Session) (place : Nat) (kind : SyntaxKind) : Session :=
  { s with
    recorder := { s.recorder.start.2 with
      events := s.recorder.events.set place
        (.start kind (some (s.recorder.events.length - place))) ++ [.placeholder] }
    markers := s.markers.push (some s.recorder.start.1) }

theorem records_precede {node : Nat} (h : Records s g plots)
    (hmove : g.move mayGiveUp (.precede node) = some g') :
    ∃ t plots', Goes s [.precede node] t ∧ Records t g' plots' := by
  obtain ⟨before, tree, later, ⟨hchildren, -⟩, rfl⟩ := Growth.precede_eq_some_iff.1 hmove
  obtain ⟨plot, outer, rfl, htop, houter⟩ := h.exists_plot
  rw [← htop] at hchildren
  obtain ⟨place, kind, front, back, hrow, hnode, hat, hstanding⟩ :=
    h.standing.precede s.recorder.markers.length hchildren
  rw [Array.getElem?_toList] at hnode
  have hprecede : s.recorder.precede ⟨place, kind⟩ =
      .ok (s.recorder.start.1, (wrapped s place kind).recorder) :=
    precede_eq_ok_iff.2 ⟨kind, none, hat, rfl, rfl⟩
  have hgoes : Goes s [.precede node] (wrapped s place kind) := by
    have hsize : (wrapped s place kind).markers.size = s.markers.size + 1 := Array.size_push _
    refine goes_of_step (step_precede_of_ok hnode hprecede) fun later => ?_
    rw [stepsOf, hsize, ← h.held.length_eq]
    rfl
  refine ⟨_, _, hgoes, {
    standing := hstanding
    held := h.held.push rfl rfl rfl
    stack := by rw [← htop, ← houter]; rfl
    finished := h.finished
    pending := h.pending
    textEnd := h.textEnd
    errors := by simpa [hrow] using h.errors }⟩

theorem bump_of_none {p : Recorder} (h : p.tokens[p.index]? = none) : p.bump = p := by
  simp [Recorder.bump, Recorder.current, Recorder.nth, h]

theorem bump_of_some {p : Recorder} {token : Token} (h : p.tokens[p.index]? = some token) :
    p.bump = { p.record (.token token.kind) with index := p.index + 1 } := by
  simp [Recorder.bump, Recorder.current, Recorder.nth, h]

theorem bumpMany_one (p : Recorder) : p.bumpMany 1 = p.bump := by
  rw [Recorder.bumpMany]
  rcases Nat.lt_or_ge p.index p.tokens.size with hlt | hge
  · rw [Nat.min_eq_left (Nat.sub_pos_of_lt hlt)]
    rfl
  · rw [Nat.sub_eq_zero_of_le hge, Nat.min_zero, bump_of_none (Array.getElem?_eq_none hge)]
    rfl

theorem Records.head?_pending (h : Records s g plots) :
    s.recorder.tokens[s.recorder.index]? = g.pending.head? := by
  rw [← h.pending, List.head?_drop, Array.getElem?_toList]

theorem records_bump (h : Records s g plots) (hmove : g.move mayGiveUp .bump = some g') :
    ∃ t plots', Goes s [.bump] t ∧ Records t g' plots' := by
  have hhead := h.head?_pending
  have hstep : s.step (.bumpMany 1) = .ok (.nothing, { s with recorder := s.recorder.bump }) := by
    rw [← bumpMany_one]
    rfl
  rw [Growth.move] at hmove
  split at hmove
  · rename_i hpending
    cases hmove
    rw [hpending] at hhead
    rw [bump_of_none hhead] at hstep
    exact ⟨s, _, goes_of_step hstep fun later => rfl, h⟩
  · rename_i token pending hpending
    cases hmove
    rw [hpending] at hhead
    rw [bump_of_some hhead] at hstep
    obtain ⟨plot, outer, rfl, htop, houter⟩ := h.exists_plot
    have hmark : marks [(s.recorder.events.length, .ofEvent (.token token.kind))] =
        [.token token.kind] := by simp [marks, Site.ofEvent]
    refine ⟨_, _, goes_of_step hstep fun later => rfl, {
      standing := h.standing.put hmark rfl (.token .nil)
      held := ⟨h.held.openMarkers_eq, h.held.nodup, h.held.length_eq, h.held.held⟩
      stack := by rw [← htop, ← houter]; rfl
      finished := h.finished
      pending := ?_
      textEnd := h.textEnd
      errors := by simpa [errorsOf] using h.errors }⟩
    change s.recorder.tokens.toList.drop (s.recorder.index + 1) = pending
    rw [← List.tail_drop, h.pending, hpending, List.tail_cons]

theorem records_report {kind : ErrorKind} (h : Records s g plots)
    (hmove : g.move mayGiveUp (.report kind) = some g') :
    ∃ t plots', Goes s [.report kind] t ∧ Records t g' plots' := by
  cases hmove
  obtain ⟨plot, outer, rfl, htop, houter⟩ := h.exists_plot
  have hoffset : s.recorder.offset = g.offset := by
    rw [Recorder.offset, offsetOf, h.head?_pending, h.textEnd, Growth.offset]
    cases g.pending <;> rfl
  have hmark : marks [(s.recorder.events.length, .ofEvent (.error ⟨kind, .empty g.offset⟩))] =
      [.error ⟨kind, .empty g.offset⟩] := by simp [marks, Site.ofEvent]
  have hstep : s.step (.report kind) = .ok (.nothing,
      { s with recorder := s.recorder.record (.error ⟨kind, .empty g.offset⟩) }) := by
    rw [← hoffset]
    rfl
  exact ⟨_, _, goes_of_step hstep fun later => rfl, {
    standing := h.standing.put hmark rfl (.error .nil)
    held := ⟨h.held.openMarkers_eq, h.held.nodup, h.held.length_eq, h.held.held⟩
    stack := by rw [← htop, ← houter]; rfl
    finished := h.finished
    pending := h.pending
    textEnd := h.textEnd
    errors := by simp [← h.errors, errorsOf] }⟩

end Moves

section Run

variable {s : Session} {g g' : Growth} {plots : List Plot} {mayGiveUp : Sprout → Bool}

theorem records_move (hgiven : ∀ s, mayGiveUp s = true → s.wraps = true → s.used = true)
    {m : Move} (h : Records s g plots) (hmove : g.move mayGiveUp m = some g') :
    ∃ t plots', Goes s [m] t ∧ Records t g' plots' := by
  cases m with
  | start => exact records_start h hmove
  | complete kind => exact records_complete h hmove
  | abandon => exact records_abandon hgiven h hmove
  | precede node => exact records_precede h hmove
  | bump => exact records_bump h hmove
  | report kind => exact records_report h hmove

theorem records_run (hgiven : ∀ s, mayGiveUp s = true → s.wraps = true → s.used = true)
    {moves : List Move} (h : Records s g plots) (hrun : g.run mayGiveUp moves = some g') :
    ∃ t plots', Goes s moves t ∧ Records t g' plots' := by
  induction moves generalizing s g plots with
  | nil =>
      cases hrun
      exact ⟨s, plots, fun later => rfl, h⟩
  | cons first later ih =>
      obtain ⟨mid, hfirst, hlater⟩ := Growth.run_cons_eq_some_iff.1 hrun
      obtain ⟨u, plots', hgoes, hmid⟩ := records_move hgiven h hfirst
      obtain ⟨t, plots'', hgoes', ht⟩ := ih hmid hlater
      exact ⟨t, plots'', hgoes.trans hgoes', ht⟩

theorem records_ofText (text : String) :
    ∃ s plots, Goes (Session.ofText text) [.start] s ∧ Records s (.ofText text) plots := by
  have hstep : (Session.ofText text).step .start = .ok (.handle 0,
      { Session.ofText text with
        recorder := (Recorder.ofText text).start.2
        markers := #[some (Recorder.ofText text).start.1] }) := rfl
  refine ⟨_, _, goes_of_step hstep fun later => rfl, {
    standing := Standing.nil.start 0
    held := ?_
    stack := rfl
    finished := rfl
    pending := rfl
    textEnd := rfl
    errors := rfl }⟩
  have hheld : Held (Session.ofText text) [] := ⟨rfl, List.nodup_nil, rfl, nofun⟩
  exact hheld.push rfl rfl rfl

/-- The tree of a whole run is the one that has grown, with the blanks and comments of the text. -/
theorem exists_session {text : String} {moves : List Move}
    (hgiven : ∀ s, mayGiveUp s = true → s.wraps = true → s.used = true)
    (hrun : (Growth.ofText text).run mayGiveUp moves = some g) (houter : g.outer = [])
    (kind : SyntaxKind) :
    ∃ s, sessionOf text (.start :: (moves ++ [.complete kind])) = some s ∧
      s.finish text = .ok ⟨dressRoot (Token.tokenize text) kind g.top.trees, g.errors⟩ := by
  obtain ⟨first, plots, hgoes, hfirst⟩ := records_ofText text
  obtain ⟨last, plots', hgoes', hlast⟩ := records_run hgiven hfirst hrun
  obtain ⟨plot, outer, rfl, htop, houter'⟩ := hlast.exists_plot
  rw [houter, List.map_eq_nil_iff] at houter'
  subst houter'
  have hsession := ((hgoes.trans hgoes').trans (goes_complete hlast kind)) []
  rw [List.append_nil] at hsession
  refine ⟨finished last plot [] kind, hsession, ?_⟩
  have hplace : plot.place = 0 := hlast.standing.extends_length.2.2
  have hstart := hlast.standing.getElem?_finish kind
  have hbrackets := hlast.standing.brackets_finish kind
  have hspells := hlast.standing.spells_finish kind ⟨plot.place, kind⟩ plot List.mem_cons_self
  have hleaves := Growth.leaves_of_run hrun
  rw [Growth.leaves, houter, ← htop] at hleaves
  have hfinish : (finished last plot [] kind).finish text = Parse.ofEvents (Token.tokenize text)
      (last.recorder.events.set plot.place (.start kind none) ++ [.finish]) := rfl
  rw [hplace] at hstart hbrackets hspells hfinish
  rw [hfinish, ofEvents_of_spells hstart hbrackets hspells hleaves, ← hlast.errors, ← htop]
  rfl

/-- Apart from blanks and comments, the tree that a session records is the one that has grown on the
stack, if only nodes that were begun at a token are given up; and the errors are those that were
reported, in this order. -/
theorem tree_of_run {text : String} {moves : List Move}
    (hrun : (Growth.ofText text).run (fun s => !s.wraps) moves = some g) (houter : g.outer = [])
    (kind : SyntaxKind) :
    ∃ s parse, sessionOf text (.start :: (moves ++ [.complete kind])) = some s ∧
      s.finish text = .ok parse ∧ bare parse.tree = [.node kind g.top.trees] ∧
      parse.errors = g.errors := by
  have hgiven (s : Sprout) (hplain : (!s.wraps) = true) (hwraps : s.wraps = true) :
      s.used = true := by simp [hwraps] at hplain
  obtain ⟨s, hs, hfinish⟩ := exists_session hgiven hrun houter kind
  have hleaves := Growth.leaves_of_run hrun
  rw [Growth.leaves, houter] at hleaves
  exact ⟨s, _, hs, hfinish, bare_dressRoot kind hleaves, rfl⟩

/-- A node around a finished one, a token whose node was given up, and an error. -/
theorem tree_of_run_wrapped :
    ∃ s parse, sessionOf "a b" [.start, .start, .bump, .complete (.node .type), .start, .bump,
        .abandon, .precede 0, .report .expectedComma, .complete (.node .annot),
        .complete (.node .root)] = some s ∧
      s.finish "a b" = .ok parse ∧
      bare parse.tree = [.node (.node .root) [.node (.node .annot)
        [.node (.node .type) [.leaf .ident "a"], .leaf .ident "b", .node (.node .error) []]]] ∧
      parse.errors = [⟨.expectedComma, .empty 3⟩] := by
  have htokens : Token.significant (Token.tokenize "a b") =
      [⟨.ident, 0, "a"⟩, ⟨.ident, 2, "b"⟩] := by decide +kernel
  have hrun : (Growth.ofText "a b").run (fun s => !s.wraps) [.start, .bump,
      .complete (.node .type), .start, .bump, .abandon, .precede 0, .report .expectedComma,
      .complete (.node .annot)] = some ⟨⟨false, true, [⟨.node (.node .annot)
        [.node (.node .type) [.leaf .ident "a"], .leaf .ident "b", .node (.node .error) []],
        some 1⟩]⟩, [], [], 3, 2, [⟨.expectedComma, .empty 3⟩]⟩ := by
    rw [Growth.ofText, htokens]
    rfl
  exact tree_of_run hrun rfl (.node .root)

end Run

end PatternSyntax.Proofs.Simulation
