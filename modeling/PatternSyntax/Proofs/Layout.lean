import PatternSyntax.Proofs.Dressing
import PatternSyntax.Proofs.Operations

/-!
Where a tree that grows stands in the recording of the same run. Each open node has a part of the
brackets: its own opening one, and those that spell its children.
-/

namespace PatternSyntax.Proofs.Layout

open PatternSyntax.Proofs.Dressing
open PatternSyntax.Proofs.Grafts
open PatternSyntax.Proofs.Growing

/-- An open node and its part of a recording. -/
structure Plot where
  /-- The handle of the marker of the node. -/
  handle : Nat
  /-- The place of the start of the node. -/
  place : Nat
  /-- The brackets behind the one that opens the node. -/
  row : List Mark
  sprout : Sprout

/-- The brackets of open nodes, which are given innermost first. -/
def bracketsOf : List Plot → List Mark
  | [] => []
  | plot :: outer => bracketsOf outer ++ .opening plot.place :: plot.row

@[simp] theorem errorsOf_bracketsOf_cons (plot : Plot) (outer : List Plot) :
    errorsOf (bracketsOf (plot :: outer)) = errorsOf (bracketsOf outer) ++ errorsOf plot.row := by
  rw [bracketsOf, errorsOf_append, errorsOf_opening]

/-- Open nodes begin one behind the other, the outermost one with the recording, and there is
something in between if and only if the outer one is used. The recording ends at the given place. -/
def Extends : List Plot → Nat → Prop
  | [], stop => stop = 0
  | plot :: outer, stop =>
    plot.place < stop ∧ (plot.sprout.used = false ↔ plot.place + 1 = stop) ∧
      Extends outer plot.place

/-- The open nodes of a recording, innermost first. -/
structure Standing (events : List Event) (nodes : List CompletedNode) (plots : List Plot) :
    Prop where
  brackets_eq : brackets events = bracketsOf plots
  spells : ∀ plot ∈ plots, Spells events nodes plot.row plot.sprout.children
  undecided : ∀ plot ∈ plots, events[plot.place]? = some .placeholder
  extends_length : Extends plots events.length
  inside : LinksInside events
  /-- No link leads to a node that was begun at a token. -/
  free : ∀ place target, Linked events place target →
    ∀ plot ∈ plots, plot.sprout.wraps = false → plot.place ≠ target

section Events

variable {events : List Event} {place target : Nat} {event : Event}

theorem getElem?_append_of_some {α : Type} {front : List α} {value : α} (back : List α)
    (h : front[place]? = some value) : (front ++ back)[place]? = some value := by
  rw [List.getElem?_append_left (List.getElem?_eq_some_iff.1 h).1, h]

theorem getElem?_set_append {index : Nat} {changed : Event} (back : List Event)
    (hne : place ≠ index) (h : events[place]? = some event) :
    (events.set index changed ++ back)[place]? = some event :=
  getElem?_append_of_some _ ((List.getElem?_set_ne hne.symm).trans h)

theorem linked_append (h : Linked events place target) :
    Linked (events ++ [event]) place target := by
  obtain ⟨kind, distance, hat, rfl⟩ := h
  exact ⟨kind, distance, getElem?_append_of_some _ hat, rfl⟩

theorem linked_of_append (h : Linked (events ++ [event]) place target)
    (hevent : linkOf (.ofEvent event) = none) : Linked events place target := by
  obtain ⟨kind, distance, hat, rfl⟩ := h
  rcases Nat.lt_or_ge place events.length with hlt | hge
  · rw [List.getElem?_append_left hlt] at hat
    exact ⟨kind, distance, hat, rfl⟩
  · rw [List.getElem?_append_right hge, List.getElem?_singleton] at hat
    split at hat
    · rw [Option.some.inj hat] at hevent
      cases hevent
    · cases hat

theorem linked_of_set {link : Option Nat} {kind : SyntaxKind} {index : Nat}
    (h : Linked (events.set index (.start kind link)) place target) :
    Linked events place target ∨ ∃ distance ∈ link, target = index + distance := by
  obtain ⟨other, distance, hat, rfl⟩ := h
  rw [List.getElem?_set] at hat
  split at hat
  · subst index
    split at hat
    · cases hat
      exact .inr ⟨distance, rfl, rfl⟩
    · cases hat
  · exact .inl ⟨other, distance, hat, rfl⟩

theorem linked_of_tie {source : Nat} {kind : SyntaxKind} (hplace : place < events.length)
    (h : Linked (events.set place (.start kind (some (events.length - place))) ++ [.placeholder])
      source target) :
    Linked events source target ∨ target = events.length := by
  rcases linked_of_set (linked_of_append h rfl) with h | ⟨distance, hdistance, rfl⟩
  · exact .inl h
  · cases hdistance
    exact .inr (Nat.add_sub_cancel' hplace.le)

end Events

namespace Standing

variable {events : List Event} {nodes : List CompletedNode} {plot parent : Plot}
  {outer plots : List Plot}

theorem place_lt (h : Standing events nodes plots) (hmem : plot ∈ plots) :
    plot.place < events.length :=
  (List.getElem?_eq_some_iff.1 (h.undecided plot hmem)).1

theorem place_ne (h : Standing events nodes plots) (hmem : plot ∈ plots) {place : Nat}
    {kind : SyntaxKind} {link : Option Nat} (hat : events[place]? = some (.start kind link)) :
    plot.place ≠ place := by
  rintro rfl
  rw [h.undecided plot hmem] at hat
  cases hat

theorem nil : Standing [] [] [] where
  brackets_eq := by simp [brackets, sites, marks, bracketsOf]
  spells := nofun
  undecided := nofun
  extends_length := rfl
  inside := by
    rintro place target ⟨kind, distance, hat, -⟩
    cases hat
  free := nofun

theorem start (h : Standing events nodes plots) (handle : Nat) :
    Standing (events ++ [.placeholder]) nodes (⟨handle, events.length, [], .new⟩ :: plots) where
  brackets_eq := by
    rw [brackets_append h.inside, h.brackets_eq, bracketsOf]
    simp [marks, Site.ofEvent]
  spells := List.forall_mem_cons.2 ⟨.nil, fun plot hmem =>
    (h.spells plot hmem).keep (fun _ _ _ => getElem?_append_of_some _) fun _ _ => id⟩
  undecided := List.forall_mem_cons.2 ⟨List.getElem?_concat_length, fun plot hmem =>
    getElem?_append_of_some _ (h.undecided plot hmem)⟩
  extends_length := by
    rw [List.length_append]
    exact ⟨Nat.lt_succ_self _, iff_of_true rfl rfl, h.extends_length⟩
  inside := fun place target hlinked => by
    rw [List.length_append]
    exact Nat.lt_succ_of_lt (h.inside place target (linked_of_append hlinked rfl))
  free := fun place target hlinked => List.forall_mem_cons.2
    ⟨fun _ => (h.inside place target (linked_of_append hlinked rfl)).ne',
      h.free place target (linked_of_append hlinked rfl)⟩

theorem put (h : Standing events nodes (plot :: outer)) {event : Event} {mark : Mark}
    {child : Child} (hmark : marks [(events.length, .ofEvent event)] = [mark])
    (hevent : linkOf (.ofEvent event) = none)
    (hspells : Spells (events ++ [event]) nodes [mark] [child]) :
    Standing (events ++ [event]) nodes
      ({ plot with row := plot.row ++ [mark], sprout := plot.sprout.put child } :: outer) where
  brackets_eq := by
    rw [brackets_append h.inside, h.brackets_eq, hmark, bracketsOf, bracketsOf, List.append_assoc,
      List.cons_append]
  spells := by
    have hkeep : ∀ other ∈ plot :: outer,
        Spells (events ++ [event]) nodes other.row other.sprout.children := fun other hmem =>
      (h.spells other hmem).keep (fun _ _ _ => getElem?_append_of_some _) fun _ _ => id
    rw [List.forall_mem_cons] at hkeep ⊢
    exact ⟨hkeep.1.append hspells, hkeep.2⟩
  undecided := by
    have hkeep : ∀ other ∈ plot :: outer, (events ++ [event])[other.place]? = some .placeholder :=
      fun other hmem => getElem?_append_of_some _ (h.undecided other hmem)
    rw [List.forall_mem_cons] at hkeep ⊢
    exact hkeep
  extends_length := by
    obtain ⟨hlt, -, houter⟩ := h.extends_length
    rw [List.length_append]
    exact ⟨Nat.lt_succ_of_lt hlt,
      iff_of_false Bool.noConfusion (Nat.succ_lt_succ hlt).ne, houter⟩
  inside := fun place target hlinked => by
    rw [List.length_append]
    exact Nat.lt_succ_of_lt (h.inside place target (linked_of_append hlinked hevent))
  free := fun place target hlinked => by
    have hfree := h.free place target (linked_of_append hlinked hevent)
    rw [List.forall_mem_cons] at hfree ⊢
    exact hfree

theorem places_nodup (h : Standing events nodes plots) : (places (bracketsOf plots)).Nodup :=
  h.brackets_eq ▸ nodup_places_brackets events

theorem mem_places_bracketsOf {place : Nat} (hmem : plot ∈ plots)
    (hplace : place = plot.place ∨ place ∈ places plot.row) :
    place ∈ places (bracketsOf plots) := by
  induction plots with
  | nil => cases hmem
  | cons first outer ih =>
      rw [bracketsOf, places_append, places, List.mem_append, List.mem_cons]
      rcases List.mem_cons.1 hmem with rfl | hmem
      · exact .inr hplace
      · exact .inl (ih hmem)

theorem place_unique (h : Standing events nodes (plot :: outer)) :
    plot.place ∉ places plot.row ∧
      ∀ other ∈ outer, other.place ≠ plot.place ∧ plot.place ∉ places other.row := by
  have hnodup := h.places_nodup
  rw [bracketsOf, places_append, places, List.nodup_append] at hnodup
  refine ⟨(List.nodup_cons.1 hnodup.2.1).1, fun other hmem => ⟨?_, fun hrow => ?_⟩⟩
  · exact hnodup.2.2 _ (mem_places_bracketsOf hmem (.inl rfl)) _ List.mem_cons_self
  · exact hnodup.2.2 _ (mem_places_bracketsOf hmem (.inr hrow)) _ List.mem_cons_self rfl

section Finish

variable (kind : SyntaxKind)

theorem linked_of_finish {place target : Nat}
    (h : Linked (events.set plot.place (.start kind none)) place target) :
    Linked events place target := by
  rcases linked_of_set h with h | ⟨distance, hnone, -⟩
  · exact h
  · cases hnone

theorem getElem?_finish (h : Standing events nodes (plot :: outer)) :
    (events.set plot.place (.start kind none) ++ [.finish])[plot.place]? =
      some (.start kind none) :=
  getElem?_append_of_some _ (List.getElem?_set_self (h.place_lt List.mem_cons_self))

theorem brackets_finish (h : Standing events nodes (plot :: outer)) :
    brackets (events.set plot.place (.start kind none) ++ [.finish]) =
      bracketsOf outer ++ .opening plot.place :: (plot.row ++ [.closing]) := by
  have hinside : LinksInside (events.set plot.place (.start kind none)) := by
    intro place target hlinked
    rw [List.length_set]
    exact h.inside place target (linked_of_finish kind hlinked)
  rw [brackets_append hinside, brackets_set (h.undecided plot List.mem_cons_self), h.brackets_eq,
    bracketsOf, List.append_assoc]
  simp [marks, Site.ofEvent]

theorem spells_finish (h : Standing events nodes (plot :: outer)) (node : CompletedNode) :
    ∀ other ∈ plot :: outer, Spells (events.set plot.place (.start kind none) ++ [.finish])
      (nodes ++ [node]) other.row other.sprout.children := by
  have hnodes : ∀ (number : Nat) (other : CompletedNode), nodes[number]? = some other →
      (nodes ++ [node])[number]? = some other := fun number other hother => by
    rw [List.getElem?_append_left (List.getElem?_eq_some_iff.1 hother).1, hother]
  obtain ⟨hrow, houter⟩ := h.place_unique
  have hspells := h.spells
  rw [List.forall_mem_cons] at hspells ⊢
  refine ⟨hspells.1.keep (fun place hmem _ hat => getElem?_set_append _ ?_ hat) hnodes,
    fun other hother => (hspells.2 other hother).keep
      (fun place hmem _ hat => getElem?_set_append _ ?_ hat) hnodes⟩
  · exact ne_of_mem_of_not_mem hmem hrow
  · exact ne_of_mem_of_not_mem hmem (houter other hother).2

end Finish

theorem complete (h : Standing events nodes (plot :: parent :: outer)) (kind : SyntaxKind) :
    Standing (events.set plot.place (.start kind none) ++ [.finish])
      (nodes ++ [⟨plot.place, kind⟩])
      ({ parent with
        row := parent.row ++ .opening plot.place :: (plot.row ++ [.closing])
        sprout := parent.sprout.put ⟨.node kind plot.sprout.trees, some nodes.length⟩ } ::
          outer) where
  brackets_eq := by
    rw [h.brackets_finish, bracketsOf, bracketsOf, List.append_assoc, List.cons_append]
  spells := by
    have hspells := h.spells_finish kind ⟨plot.place, kind⟩
    rw [List.forall_mem_cons, List.forall_mem_cons] at hspells
    obtain ⟨hplot, hparent, houter⟩ := hspells
    refine List.forall_mem_cons.2
      ⟨hparent.append (.node (h.getElem?_finish kind) ?_ hplot .nil), houter⟩
    intro number hnumber
    cases hnumber
    exact ⟨rfl, List.getElem?_concat_length⟩
  undecided := by
    have hundecided := (List.forall_mem_cons.1 h.undecided).2
    have hkeep : ∀ other ∈ parent :: outer,
        (events.set plot.place (.start kind none) ++ [.finish])[other.place]? = some .placeholder :=
      fun other hmem =>
        getElem?_set_append _ (h.place_unique.2 other hmem).1 (hundecided other hmem)
    rw [List.forall_mem_cons] at hkeep ⊢
    exact hkeep
  extends_length := by
    obtain ⟨hlt, -, hparent, -, houter⟩ := h.extends_length
    rw [List.length_append, List.length_set]
    refine ⟨(hparent.trans hlt).trans (Nat.lt_succ_self _),
      iff_of_false Bool.noConfusion ?_, houter⟩
    exact (Nat.succ_lt_succ (hparent.trans hlt)).ne
  inside := fun place target hlinked => by
    rw [List.length_append, List.length_set]
    exact Nat.lt_succ_of_lt
      (h.inside place target (linked_of_finish kind (linked_of_append hlinked rfl)))
  free := fun place target hlinked => by
    have hfree := h.free place target (linked_of_finish kind (linked_of_append hlinked rfl))
    rw [List.forall_mem_cons, List.forall_mem_cons] at hfree
    exact List.forall_mem_cons.2 hfree.2

theorem abandon (h : Standing events nodes (plot :: parent :: outer))
    (hused : plot.sprout.used = true) :
    Standing events nodes
      ({ parent with
        row := parent.row ++ .opening plot.place :: plot.row
        sprout := parent.sprout.takeIn plot.sprout } :: outer) where
  brackets_eq := by
    rw [h.brackets_eq, bracketsOf, bracketsOf, bracketsOf, List.append_assoc, List.cons_append]
  spells := by
    have hspells := h.spells
    rw [List.forall_mem_cons, List.forall_mem_cons] at hspells
    obtain ⟨hplot, hparent, houter⟩ := hspells
    exact List.forall_mem_cons.2
      ⟨hparent.append (.ghost (h.undecided plot List.mem_cons_self) hplot), houter⟩
  undecided := by
    have hundecided := (List.forall_mem_cons.1 h.undecided).2
    rw [List.forall_mem_cons] at hundecided ⊢
    exact hundecided
  extends_length := by
    obtain ⟨hlt, -, hparent, -, houter⟩ := h.extends_length
    refine ⟨hparent.trans hlt, iff_of_false ?_ ?_, houter⟩
    · simp [Sprout.takeIn, hused]
    · exact ((Nat.succ_le_of_lt hparent).trans_lt hlt).ne
  inside := h.inside
  free := fun place target hlinked => by
    have hfree := h.free place target hlinked
    rw [List.forall_mem_cons, List.forall_mem_cons] at hfree
    exact List.forall_mem_cons.2 hfree.2

theorem row_eq_nil {init : List Event} (h : Standing (init ++ [.placeholder]) nodes (plot :: outer))
    (hplace : plot.place = init.length) (hinside : LinksInside init) :
    plot.row = [] ∧ brackets init = bracketsOf outer := by
  have hbrackets := h.brackets_eq
  rw [brackets_append hinside, bracketsOf, hplace] at hbrackets
  have hlast : marks [(init.length, Site.ofEvent .placeholder)] = [.opening init.length] := by
    simp [marks, Site.ofEvent]
  rw [hlast] at hbrackets
  have hrow : plot.row = [] := by
    rcases List.eq_nil_or_concat' plot.row with hnil | ⟨row, mark, hrow⟩
    · exact hnil
    · -- The last bracket would open the node a second time.
      rw [hrow, ← List.cons_append, ← List.append_assoc] at hbrackets
      have hmark := List.append_inj_right' hbrackets rfl
      refine absurd ?_ h.place_unique.1
      rw [hrow, ← hmark, hplace, places_append]
      exact List.mem_append_right _ List.mem_cons_self
  rw [hrow] at hbrackets
  exact ⟨hrow, List.append_cancel_right hbrackets⟩

theorem exists_init (h : Standing events nodes (plot :: outer)) (hused : plot.sprout.used = false) :
    ∃ init, events = init ++ [.placeholder] ∧ plot.place = init.length := by
  have hplace := h.extends_length.2.1.1 hused
  have hundecided := h.undecided plot List.mem_cons_self
  rcases List.eq_nil_or_concat' events with rfl | ⟨init, event, rfl⟩
  · cases hundecided
  · rw [List.length_append, List.length_singleton, Nat.add_right_cancel_iff] at hplace
    rw [hplace, List.getElem?_concat_length] at hundecided
    exact ⟨init, by rw [Option.some.inj hundecided], hplace⟩

/-- No link leads to the start that is taken back, and so none leads out of what is left. -/
theorem inside_init {init : List Event} (h : Standing (init ++ [.placeholder]) nodes (plot :: outer))
    (hplace : plot.place = init.length) (hwraps : plot.sprout.wraps = false) :
    LinksInside init := by
  intro place target hlinked
  have hlt := h.inside place target (linked_append hlinked)
  have hne := h.free place target (linked_append hlinked) plot List.mem_cons_self hwraps
  rw [List.length_append, List.length_singleton] at hlt
  omega

theorem takeBack (h : Standing events nodes (plot :: parent :: outer))
    (hused : plot.sprout.used = false) (hwraps : plot.sprout.wraps = false) :
    plot.row = [] ∧ Standing events.dropLast nodes
      ({ parent with sprout := parent.sprout.takeIn plot.sprout } :: outer) := by
  obtain ⟨-, -, hextends⟩ := h.extends_length
  obtain ⟨init, rfl, hplace⟩ := h.exists_init hused
  rw [List.dropLast_concat]
  have hinside := h.inside_init hplace hwraps
  obtain ⟨hrow, hbrackets⟩ := h.row_eq_nil hplace hinside
  have hchildren : plot.sprout.children = [] :=
    Spells.children_eq_nil (hrow ▸ h.spells plot List.mem_cons_self)
  have hsame : parent.sprout.takeIn plot.sprout = parent.sprout := by
    simp [Sprout.takeIn, hused, hchildren]
  have hkeep {place : Nat} {event : Event} (hne : place ≠ plot.place)
      (hat : (init ++ [.placeholder])[place]? = some event) : init[place]? = some event := by
    have hlt := (List.getElem?_eq_some_iff.1 hat).1
    rw [List.length_append, List.length_singleton] at hlt
    rwa [List.getElem?_append_left (by omega)] at hat
  rw [hsame]
  exact ⟨hrow, {
    brackets_eq := hbrackets
    spells := fun other hmem => (h.spells other (List.mem_cons_of_mem _ hmem)).keep
      (fun place hplace _ hat =>
        hkeep (ne_of_mem_of_not_mem hplace (h.place_unique.2 other hmem).2) hat) fun _ _ => id
    undecided := fun other hmem =>
      hkeep (h.place_unique.2 other hmem).1 (h.undecided other (List.mem_cons_of_mem _ hmem))
    extends_length := hplace ▸ hextends
    inside := hinside
    free := fun place target hlink other hmem =>
      h.free place target (linked_append hlink) other (List.mem_cons_of_mem _ hmem) }⟩

section Precede

variable {place : Nat} {kind : SyntaxKind} {front inner back : List Mark}

/-- The start of a node that is completed inside the innermost open one is opened by one bracket
only. -/
theorem notMem_places_of_row (h : Standing events nodes (plot :: outer))
    (hrow : plot.row = front ++ .opening place :: (inner ++ .closing :: back)) :
    (place ∉ places (bracketsOf outer) ∧ place ∉ places front) ∧
      place ∉ places inner ∧ place ∉ places back := by
  have hnodup := h.places_nodup
  rw [bracketsOf, hrow, places_append, places, places_append, places, ← List.cons_append,
    ← List.append_assoc, List.nodup_middle, List.nodup_cons, places_append] at hnodup
  have hnot := hnodup.1
  simp only [List.mem_append, List.mem_cons, not_or] at hnot
  exact ⟨⟨hnot.1.1, hnot.1.2.2⟩, hnot.2⟩

theorem brackets_precede (h : Standing events nodes (plot :: outer))
    (hrow : plot.row = front ++ .opening place :: (inner ++ .closing :: back))
    (hat : events[place]? = some (.start kind none)) :
    brackets (events.set place (.start kind (some (events.length - place))) ++ [.placeholder]) =
      (bracketsOf outer ++ .opening plot.place :: front) ++ .opening events.length ::
        .opening place :: (inner ++ .closing :: back) := by
  obtain ⟨⟨houter, hfront⟩, hinner, hback⟩ := h.notMem_places_of_row hrow
  have hbefore : place ∉ places (bracketsOf outer ++ .opening plot.place :: front) := by
    rw [places_append, places, List.mem_append, List.mem_cons, not_or, not_or]
    exact ⟨houter, (h.place_ne List.mem_cons_self hat).symm, hfront⟩
  have hafter : place ∉ places (inner ++ .closing :: back) := by
    rw [places_append, List.mem_append, not_or]
    exact ⟨hinner, hback⟩
  have hbrackets : brackets events = (bracketsOf outer ++ .opening plot.place :: front) ++
      .opening place :: (inner ++ .closing :: back) := by
    rw [h.brackets_eq, bracketsOf, hrow, List.append_assoc, List.cons_append]
  rw [brackets_tie h.inside hat, hbrackets, List.flatMap_append, flatMap_graft_of_notMem hbefore,
    List.flatMap_cons, graft, if_pos rfl, flatMap_graft_of_notMem hafter]
  rfl

/-- A row in which a node is not opened spells the same after the node has been linked. -/
theorem spells_precede {row : List Mark} {children : List Child} {changed : Event}
    (h : Spells events nodes row children) (hplace : place ∉ places row) :
    Spells (events.set place changed ++ [.placeholder]) nodes row children :=
  h.keep (fun _ hmem _ => getElem?_set_append _ (ne_of_mem_of_not_mem hmem hplace)) fun _ _ => id

end Precede

theorem precede (h : Standing events nodes (plot :: outer)) (handle : Nat) {number : Nat}
    {before later : List Child} {tree : Tree}
    (hchildren : plot.sprout.children = before ++ ⟨tree, some number⟩ :: later) :
    ∃ place kind front back, plot.row = front ++ back ∧ nodes[number]? = some ⟨place, kind⟩ ∧
      events[place]? = some (.start kind none) ∧
      Standing (events.set place (.start kind (some (events.length - place))) ++ [.placeholder])
        nodes
        (⟨handle, events.length, back, ⟨true, false, ⟨tree, none⟩ :: later⟩⟩ ::
          { plot with row := front, sprout := { plot.sprout with children := before } } ::
            outer) := by
  have hspells := h.spells plot List.mem_cons_self
  rw [hchildren] at hspells
  obtain ⟨front, inner, back, place, kind, grandchildren, hrow, rfl, hat, hnode, hfront, hinner,
    hback⟩ := hspells.split
  have hlt : place < events.length := (List.getElem?_eq_some_iff.1 hat).1
  obtain ⟨⟨houter, hfront'⟩, hinner', hback'⟩ := h.notMem_places_of_row hrow
  refine ⟨place, kind, front, .opening place :: (inner ++ .closing :: back), hrow, hnode, hat, ?_⟩
  constructor
  case brackets_eq => exact h.brackets_precede hrow hat
  case spells =>
    refine List.forall_mem_cons.2 ⟨?_, List.forall_mem_cons.2
      ⟨spells_precede hfront hfront', fun other hmem => ?_⟩⟩
    · have hstart := getElem?_append_of_some [.placeholder] (List.getElem?_set_self
        (a := Event.start kind (some (events.length - place))) hlt)
      exact .node hstart nofun (spells_precede hinner hinner') (spells_precede hback hback')
    · refine spells_precede (h.spells other (List.mem_cons_of_mem _ hmem)) fun hplace => houter ?_
      exact mem_places_bracketsOf hmem (.inr hplace)
  case undecided =>
    have hothers : ∀ other ∈ plot :: outer, (events.set place
        (.start kind (some (events.length - place))) ++ [.placeholder])[other.place]? =
          some .placeholder := fun other hmem =>
      getElem?_set_append _ (h.place_ne hmem hat) (h.undecided other hmem)
    rw [List.forall_mem_cons] at hothers
    exact List.forall_mem_cons.2 ⟨by simp, List.forall_mem_cons.2 hothers⟩
  case extends_length =>
    rw [List.length_append, List.length_set]
    exact ⟨Nat.lt_succ_self _, iff_of_true rfl rfl, h.extends_length⟩
  case inside =>
    intro source target hlink
    rw [List.length_append, List.length_set]
    rcases linked_of_tie hlt hlink with hlink | rfl
    · exact Nat.lt_succ_of_lt (h.inside source target hlink)
    · exact Nat.lt_succ_self _
  case free =>
    intro source target hlink
    have hfree : ∀ other ∈ plot :: outer, other.sprout.wraps = false → other.place ≠ target := by
      rcases linked_of_tie hlt hlink with hlink | rfl
      · exact h.free source target hlink
      · exact fun other hmem _ => (h.place_lt hmem).ne
    rw [List.forall_mem_cons] at hfree
    exact List.forall_mem_cons.2 ⟨Bool.noConfusion, List.forall_mem_cons.2 hfree⟩

end Standing

end PatternSyntax.Proofs.Layout
