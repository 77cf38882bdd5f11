import PatternSyntax.Proofs.Blocks

/-!
Wrapping the node that a block ends with. The link of the node leads to the start of the new one, so
that they are opened at one place, and it is all one block again.
-/

namespace PatternSyntax.Proofs.Wrapping

open PatternSyntax.Proofs.Blocks
open PatternSyntax.Proofs.Coverage
open PatternSyntax.Proofs.Grafts
open PatternSyntax.Proofs.Links
open PatternSyntax.Proofs.Markers

variable {events before inner more block : List Event} {kind : SyntaxKind} {p q : Recorder}

/-- Events that end with the finish of a node. -/
def nodeBehind (before : List Event) (kind : SyntaxKind) (link : Option Nat) (inner : List Event) :
    List Event :=
  before ++ .start kind link :: (inner ++ [.finish])

/-- Events that end with the finish of a node, when the node is wrapped together with what is
recorded behind it. -/
def wrapped (before : List Event) (kind : SyntaxKind) (inner : List Event) (outer : SyntaxKind)
    (more : List Event) : List Event :=
  nodeBehind (nodeBehind before kind (some (inner.length + 2)) inner) outer none more

theorem linkedInto_set {tail : List Event} {place : Nat} (h : LinkedWithin block)
    (hat : block[place]? = some (.start kind none))
    (htail : ∃ outer link, tail[0]? = some (.start outer link)) :
    LinkedInto tail (block.set place (.start kind (some (block.length - place)))) := by
  have hplace := (List.getElem?_eq_some_iff.1 hat).1
  rintro i target ⟨found, distance, hfound, rfl⟩
  rcases eq_or_ne place i with rfl | hne
  · rw [List.getElem?_set_self hplace] at hfound
    cases hfound
    refine ⟨by omega, ?_⟩
    obtain ⟨outer, link, hstart⟩ := htail
    refine ⟨outer, link, ?_⟩
    rw [List.getElem?_append_right (by rw [List.length_set]; omega), List.length_set,
      Nat.add_sub_cancel' hplace.le, Nat.sub_self, hstart]
  · rw [List.getElem?_set_ne hne] at hfound
    obtain ⟨hlt, other, link, hstart⟩ := h i _ ⟨found, distance, hfound, rfl⟩
    refine ⟨hlt, ?_⟩
    have htarget := (List.getElem?_eq_some_iff.1 hstart).1
    rw [List.getElem?_append_left (by rwa [List.length_set]), List.getElem?_set]
    split
    · exact ⟨kind, _, rfl⟩
    · exact ⟨other, link, hstart⟩

def withEvents (q : Recorder) (events : List Event) : Recorder :=
  { q with events := events }

theorem precede_of_appends {place : Nat} (h : Appends p q block)
    (hat : block[place]? = some (.start kind none)) :
    q.precede ⟨p.events.length + place, kind⟩ =
      .ok (withEvents q (p.events ++
        block.set place (.start kind (some (block.length - place))))).start := by
  have hplace := (List.getElem?_eq_some_iff.1 hat).1
  have hfound : (p.events ++ (block ++ [Event.placeholder]))[p.events.length + place]? =
      some (.start kind none) := by
    rw [List.getElem?_append_right (Nat.le_add_right _ _), Nat.add_sub_cancel_left,
      List.getElem?_append_left hplace, hat]
  have hdistance : p.events.length + block.length - (p.events.length + place) =
      block.length - place := by omega
  simp [Recorder.precede, Recorder.start, Recorder.record, withEvents, h.events_eq, hfound, hplace,
    hdistance]

theorem getElem?_nodeBehind (before inner : List Event) (kind : SyntaxKind) (link : Option Nat) :
    (nodeBehind before kind link inner)[before.length]? = some (.start kind link) := by
  simp [nodeBehind]

theorem set_nodeBehind (before inner : List Event) (kind : SyntaxKind) :
    (nodeBehind before kind none inner).set before.length
        (.start kind (some ((nodeBehind before kind none inner).length - before.length))) =
      nodeBehind before kind (some (inner.length + 2)) inner := by
  simp [nodeBehind]

theorem length_nodeBehind (before inner : List Event) (kind : SyntaxKind)
    (link link' : Option Nat) :
    (nodeBehind before kind link inner).length = (nodeBehind before kind link' inner).length := by
  simp [nodeBehind]

theorem passed_nodeBehind (before inner : List Event) (kind : SyntaxKind) (link : Option Nat) :
    passed (nodeBehind before kind link inner) = passed before ++ passed inner := by
  rw [nodeBehind, passed, List.filterMap_append, List.filterMap_cons_none rfl,
    List.filterMap_append]
  exact congrArg (passed before ++ ·) (List.append_nil _)

theorem balanced_nodeBehind (hbefore : Balanced before) (hinner : Balanced inner)
    (kind : SyntaxKind) (link : Option Nat) : Balanced (nodeBehind before kind link inner) :=
  hbefore.append (hinner.node kind link)

theorem linkedWithin_wrapped (h : LinkedWithin (nodeBehind before kind none inner))
    (hmore : LinkedWithin more) (outer : SyntaxKind) :
    LinkedWithin (wrapped before kind inner outer more) := by
  have hstart : ∃ other link, (Event.start outer none :: (more ++ [.finish]) ++ [])[0]? =
      some (.start other link) := ⟨_, _, rfl⟩
  have hlinked := linkedInto_set h (getElem?_nodeBehind ..) hstart
  rw [set_nodeBehind] at hlinked
  exact linkedInto_nil_iff.1 (hlinked.append ((hmore.into _).node fun _ hnone => by cases hnone))

/-- The node that a block ends with can be wrapped, together with any block that is recorded behind
it. It is all one block then. -/
theorem exists_wrapped (h : Appends p q block) (hblock : block = nodeBehind before kind none inner)
    (hbefore : Balanced before) (hinner : Balanced inner) :
    ∃ m t, q.precede ⟨p.events.length + before.length, kind⟩ = .ok (m, t) ∧
      ∀ outer more r, Appends t r more →
        ∃ s, r.complete m outer = .ok (⟨q.events.length, outer⟩, s) ∧
          Appends p s (wrapped before kind inner outer more) := by
  subst hblock
  have hprecede := precede_of_appends h (getElem?_nodeBehind ..)
  rw [set_nodeBehind] at hprecede
  refine ⟨(Recorder.start _).1, (Recorder.start _).2, hprecede, fun outer more r hmore => ?_⟩
  obtain ⟨states, hclosed, hmarkers⟩ := hmore.exists_eq_grow
  obtain ⟨earlier, hearlier, hclosed'⟩ := h.markers_eq
  have hindex : q.index ≤ r.index := hmore.index_le
  have hlength : (p.events ++ nodeBehind before kind (some (inner.length + 2)) inner).length =
      q.events.length := by
    rw [h.events_eq, List.length_append, List.length_append, length_nodeBehind]
  -- All later markers are closed, so that the new node is the innermost open one.
  rw [hmarkers, complete_start]
  refine ⟨_, by rw [withEvents, hlength], ?_⟩
  exact {
    tokens_eq := h.tokens_eq
    textEnd_eq := h.textEnd_eq
    index_le := h.index_le.trans hindex
    index_le_size := fun hsize => by
      have hsize' : r.index ≤ q.tokens.size := hmore.index_le_size
        (h.tokens_eq.symm ▸ h.index_le_size hsize)
      rwa [h.tokens_eq] at hsize'
    events_eq := List.append_assoc ..
    openMarkers_eq := h.openMarkers_eq
    markers_eq := by
      refine ⟨earlier ++ .completed :: states, ?_, by simp [hclosed, hclosed']⟩
      simp [grow, hearlier]
    balanced := balanced_nodeBehind (balanced_nodeBehind hbefore hinner _ _) hmore.balanced _ _
    linked := linkedWithin_wrapped h.linked hmore.linked outer
    passed_eq := by
      have hpassed : passed more = kindsBetween q.tokens q.index r.index := hmore.passed_eq
      have hblock := h.passed_eq
      rw [passed_nodeBehind] at hblock
      rw [wrapped, passed_nodeBehind, passed_nodeBehind, hblock, hpassed, h.tokens_eq]
      exact kindsBetween_append h.index_le hindex }

theorem linksInside_of_linkedWithin (h : LinkedWithin block) : LinksInside block := by
  intro place target hlinked
  obtain ⟨-, kind, link, hstart⟩ := h place target hlinked
  exact (List.getElem?_eq_some_iff.1 hstart).1

theorem linksInside_cons_iff {event : Event} :
    LinksInside (event :: events) ↔
      (∀ kind distance, event = .start kind (some distance) → distance ≤ events.length) ∧
        LinksInside events := by
  constructor
  · refine fun h => ⟨?_, ?_⟩
    · rintro kind distance rfl
      have := h 0 _ ⟨kind, distance, rfl, rfl⟩
      rw [List.length_cons] at this
      omega
    · rintro place target ⟨kind, distance, hat, rfl⟩
      have := h (place + 1) _ ⟨kind, distance, hat, rfl⟩
      rw [List.length_cons] at this
      omega
  · rintro ⟨hfirst, hrest⟩ place target ⟨kind, distance, hat, rfl⟩
    rw [List.length_cons]
    cases place with
    | zero =>
        have := hfirst kind distance (Option.some.inj hat)
        omega
    | succ place =>
        have := hrest place _ ⟨kind, distance, hat, rfl⟩
        omega

theorem linksInside_placeholder (h : LinksInside events) :
    LinksInside (.placeholder :: events) := by
  refine linksInside_cons_iff.2 ⟨fun kind distance hevent => ?_, h⟩
  cases hevent

theorem followLink_append_of_inside (link : Option Nat) (hinside : LinksInside events)
    (hlink : ∀ distance ∈ link, distance ≤ events.length) (tail : List Event) :
    Event.followLink (events ++ tail) link =
        ((Event.followLink events link).1, (Event.followLink events link).2 ++ tail) ∧
      LinksInside (Event.followLink events link).2 := by
  fun_induction Event.followLink events link with
  | case1 events => exact ⟨by cases events <;> cases tail <;> rfl, hinside⟩
  | case2 events => exact ⟨by cases events <;> cases tail <;> rfl, hinside⟩
  | case3 distance => exact absurd (hlink _ rfl) (Nat.not_succ_le_zero _)
  | case4 kind link rest kinds later heq ih =>
      rw [linksInside_cons_iff] at hinside
      obtain ⟨hfollow, hlater⟩ := ih hinside.2 fun distance hdistance =>
        hinside.1 kind distance (congrArg (Event.start kind) hdistance)
      rw [heq] at hfollow hlater
      refine ⟨?_, linksInside_placeholder hlater⟩
      rewrite [List.cons_append, Event.followLink, hfollow]
      rfl
  | case5 event rest hevent =>
      rw [linksInside_cons_iff] at hinside
      refine ⟨?_, linksInside_placeholder hinside.2⟩
      cases event with
      | start kind link => exact (hevent kind link rfl).elim
      | placeholder | finish | token | error => rfl
  | case6 event rest steps kinds later heq ih =>
      rw [linksInside_cons_iff] at hinside
      obtain ⟨hfollow, hlater⟩ := ih hinside.2 fun d hd => by
        have := hlink _ rfl
        cases hd
        exact Nat.le_of_succ_le_succ this
      rw [heq] at hfollow hlater
      have hlength := Event.length_followLink rest (some (steps + 1))
      rw [heq] at hlength
      refine ⟨?_, linksInside_cons_iff.2 ⟨fun kind distance hevent => ?_, hlater⟩⟩
      · rewrite [List.cons_append, Event.followLink, hfollow]
        rfl
      · rw [hlength]
        exact hinside.1 kind distance hevent

/-- A recording whose links stay inside is built apart from what is recorded behind it. -/
theorem resolve_append (hinside : LinksInside events) (tail : List Event) :
    Event.resolve (events ++ tail) = Event.resolve events ++ Event.resolve tail := by
  fun_induction Event.resolve events with
  | case1 => rfl
  | case3 kind link rest followed ih =>
      rw [linksInside_cons_iff] at hinside
      have hlink : ∀ distance ∈ link, distance ≤ rest.length := fun distance hdistance =>
        hinside.1 kind distance (congrArg (Event.start kind) hdistance)
      obtain ⟨hfollow, hlater⟩ := followLink_append_of_inside link hinside.2 hlink tail
      rewrite [List.cons_append, Event.resolve, hfollow, ih hlater]
      rfl
  | case2 rest ih => rw [List.cons_append, Event.resolve, ih (linksInside_cons_iff.1 hinside).2]
  | case4 rest ih | case5 _ rest ih | case6 _ rest ih =>
      rw [List.cons_append, Event.resolve, ih (linksInside_cons_iff.1 hinside).2, List.cons_append]

def closedByStep : BuildStep → Nat
  | .close => 1
  | _ => 0

def openedByStep : BuildStep → Nat
  | .openAll kinds => kinds.length
  | _ => 0

/-- Events become one node: it is opened first, together with those inside of it that begin at the
same place, and its own finish, which comes last, closes it. If its start is linked to a start right
behind the events, then the only difference is that the other node is opened around it. -/
structure Forms (block : List Event) (kind : SyntaxKind) (before inner : List Event)
    (inside : List SyntaxKind) (body : List BuildStep) : Prop where
  block_eq : block = nodeBehind before kind none inner
  before_balanced : Balanced before
  inner_balanced : Balanced inner
  body_closes : openBehind closedByStep openedByStep inside.length body = some 0
  resolve_eq : Event.resolve block = .openAll (kind :: inside) :: (body ++ [.close])
  resolve_linked (outer : SyntaxKind) (tail : List Event) :
    Event.resolve (nodeBehind before kind (some (inner.length + 2)) inner ++
        .start outer none :: tail) =
      .openAll (outer :: kind :: inside) :: (body ++ .close :: Event.resolve tail)

theorem Forms.resolve_wrapped {inside : List SyntaxKind} {body : List BuildStep}
    (h : Forms block kind before inner inside body) (outer : SyntaxKind)
    (hmore : LinkedWithin more) :
    Event.resolve (wrapped before kind inner outer more) =
      .openAll (outer :: kind :: inside) ::
        (body ++ .close :: (Event.resolve more ++ [.close])) := by
  refine (h.resolve_linked outer _).trans ?_
  rw [resolve_append (linksInside_of_linkedWithin hmore), Event.resolve, Event.resolve]

mutual

theorem exists_steps_eq (locate : Nat → Nat) (outline : Outline) (hnode : IsNode outline)
    {c stop : Cursor} (hcovers : Covers c [outline] stop) :
    ∃ kind inside body, outline.top? = some kind ∧
      openBehind closedByStep openedByStep inside.length body = some 0 ∧
      ∀ outer, steps locate outer outline =
        .openAll (outer ++ .node kind :: inside) :: (body ++ [.close]) := by
  cases outline with
  | token kind => cases hnode
  | error kind index => cases hnode
  | loose parts => cases hnode
  | node kind parts =>
      cases hcovers with
      | node hinner _ _ =>
          exact ⟨kind, [], stepsAll locate parts, rfl, openBehind_stepsAll locate parts hinner,
            fun _ => rfl⟩
  | around kind first later =>
      cases hcovers with
      | around _ hfirst hhead hlater _ =>
          obtain ⟨top, inside, body, -, hbody, hsteps⟩ :=
            exists_steps_eq locate first hfirst hhead
          refine ⟨kind, .node top :: inside, body ++ .close :: stepsAll locate later, rfl, ?_,
            fun outer => ?_⟩
          · rw [openBehind_append, List.length_cons, openBehind_add hbody 1]
            exact openBehind_stepsAll locate later hlater
          · rw [steps, hsteps]
            simp

theorem openBehind_stepsAll (locate : Nat → Nat) (parts : List Outline) {c stop : Cursor}
    (hcovers : Covers c parts stop) :
    openBehind closedByStep openedByStep 0 (stepsAll locate parts) = some 0 := by
  cases parts with
  | nil => rfl
  | cons part rest =>
      have hsplit {front : List BuildStep} {mid : Cursor}
          (hfront : openBehind closedByStep openedByStep 0 front = some 0)
          (hrest : Covers mid rest stop) :
          openBehind closedByStep openedByStep 0 (front ++ stepsAll locate rest) = some 0 := by
        rw [openBehind_append, hfront]
        exact openBehind_stepsAll locate rest hrest
      have hnode {mid : Cursor} (hnode : IsNode part) (hpart : Covers c [part] mid) :
          openBehind closedByStep openedByStep 0 (steps locate [] part) = some 0 := by
        obtain ⟨kind, inside, body, -, hbody, hsteps⟩ := exists_steps_eq locate part hnode hpart
        rewrite [hsteps, List.nil_append,
          openBehind_cons (show closedByStep (.openAll _) = 0 from rfl), openBehind_append,
          openedByStep, Nat.zero_add, List.length_cons, openBehind_add hbody 1]
        rfl
      rw [stepsAll]
      cases hcovers with
      | token hrest => exact hsplit rfl hrest
      | error hrest => exact hsplit rfl hrest
      | node hinner hfits hrest =>
          exact hsplit (hnode trivial (.node hinner hfits (.nil _))) hrest
      | around hkind hfirst hhead hlater hrest =>
          exact hsplit (hnode trivial (.around hkind hfirst hhead hlater (.nil _))) hrest
      | loose hinner hrest => exact hsplit (openBehind_stepsAll locate _ hinner) hrest

end

/-- A node, as it stands or behind a marker that was given up. Rules find nothing else. -/
def IsFinding : Outline → Prop
  | .loose [part] => IsNode part
  | outline => IsNode outline

theorem exists_events_eq (locate : Nat → Nat) (outline : Outline) (hnode : IsNode outline) :
    ∃ kind before inner, outline.top? = some kind ∧ before.length = outline.lead ∧
      Balanced before ∧ Balanced inner ∧ outline.size - outline.lead = inner.length + 2 ∧
      ∀ link, outline.events locate link = nodeBehind before (.node kind) link inner := by
  cases outline with
  | token kind => cases hnode
  | error kind index => cases hnode
  | loose parts => cases hnode
  | node kind parts =>
      refine ⟨kind, [], Outline.eventsAll locate parts, rfl, rfl, balanced_nil,
        balanced_eventsAll locate parts, ?_, fun _ => rfl⟩
      rw [Outline.length_eventsAll]
      rfl
  | around kind first later =>
      refine ⟨kind, _, Outline.eventsAll locate later, rfl, Outline.length_events .., ?_,
        balanced_eventsAll locate later, ?_, fun _ => rfl⟩
      · exact balanced_events ..
      · rw [Outline.length_eventsAll]
        exact Nat.add_sub_cancel_left ..

theorem eventsAll_singleton (locate : Nat → Nat) (outline : Outline) :
    Outline.eventsAll locate [outline] = outline.events locate none :=
  List.append_nil _

theorem forms_node (locate : Nat → Nat) {outline : Outline} (hnode : IsNode outline)
    {c stop : Cursor} (hcovers : Covers c [outline] stop) :
    ∃ kind before inner inside body, outline.top? = some kind ∧ before.length = outline.lead ∧
      Forms (Outline.eventsAll locate [outline]) (.node kind) before inner inside body := by
  rw [eventsAll_singleton]
  obtain ⟨kind, before, inner, htop, hlead, hbefore, hinner, hsize, hevents⟩ :=
    exists_events_eq locate outline hnode
  obtain ⟨top, inside, body, htop', hbody, hsteps⟩ :=
    exists_steps_eq locate outline hnode hcovers
  cases htop.symm.trans htop'
  refine ⟨kind, before, inner, inside, body, htop, hlead, hevents none, hbefore, hinner, hbody, ?_,
    fun outer tail => ?_⟩
  · have hresolve := resolve_events locate outline hnode hcovers false []
    rw [wrappers_false, List.append_nil] at hresolve
    refine hresolve.trans ?_
    rewrite [List.reverse_nil, hsteps, Event.resolve, List.append_nil]
    rfl
  · have hresolve := resolve_events locate outline hnode hcovers true (.start outer none :: tail)
    rw [hsize, show linkOver true (inner.length + 2) = some (inner.length + 2) from rfl,
      hevents] at hresolve
    rw [hresolve, hsteps, show wrappers true (.start outer none :: tail) =
      ([outer], .placeholder :: tail) by simp [wrappers, followLink_start, Event.followLink],
      Event.resolve]
    simp

theorem Forms.behind_placeholder {inside : List SyntaxKind} {body : List BuildStep}
    (h : Forms block kind before inner inside body) :
    Forms (.placeholder :: block) kind (.placeholder :: before) inner inside body where
  block_eq := congrArg (.placeholder :: ·) h.block_eq
  before_balanced := h.before_balanced.cons rfl rfl
  inner_balanced := h.inner_balanced
  body_closes := h.body_closes
  resolve_eq := by rw [Event.resolve, h.resolve_eq]
  resolve_linked outer tail := by
    rewrite [← h.resolve_linked, nodeBehind, List.cons_append, List.cons_append, Event.resolve]
    rfl

theorem forms_finding (locate : Nat → Nat) {outline : Outline} (hfinding : IsFinding outline)
    {c stop : Cursor} (hcovers : Covers c [outline] stop) :
    ∃ kind before inner inside body, outline.top? = some kind ∧ before.length = outline.lead ∧
      Forms (Outline.eventsAll locate [outline]) (.node kind) before inner inside body := by
  unfold IsFinding at hfinding
  split at hfinding
  · rename_i part
    cases hcovers with
    | loose hpart _ =>
        obtain ⟨kind, before, inner, inside, body, htop, hlead, hforms⟩ :=
          forms_node locate hfinding hpart
        refine ⟨kind, .placeholder :: before, inner, inside, body, htop,
          congrArg (· + 1) hlead, ?_⟩
        have hne : Outline.eventsAll locate [part] ≠ [] := by
          simp [hforms.block_eq, nodeBehind]
        rw [eventsAll_singleton, events_loose, if_neg hne]
        exact hforms.behind_placeholder
  · exact forms_node locate hfinding hcovers

end PatternSyntax.Proofs.Wrapping
