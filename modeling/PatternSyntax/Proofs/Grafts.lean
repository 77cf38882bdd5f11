import Mathlib.Data.List.Perm.Basic
import Mathlib.Data.List.Nodup
import PatternSyntax.Recording.Replay

/-!
Following the links of a recording that is not finished yet. The nodes are known by the places of
their starts; whether a start is decided does not matter for the links. A recording reads as a row
of brackets, and wrapping a node puts one more bracket in front of its own.
-/

namespace PatternSyntax.Proofs.Grafts

/-- An event for those who follow links. -/
inductive Site where
  /-- A node that was opened together with an earlier one. -/
  | gone
  /-- The start of a node, decided or not. -/
  | opening (link : Option Nat)
  | closing
  | token (kind : TokenKind)
  | error (error : SyntaxError)

/-- A bracket of a recording, or what stands between brackets. An opening bracket is known by the
place of the start of its node. -/
inductive Mark where
  | opening (place : Nat)
  | closing
  | token (kind : TokenKind)
  | error (error : SyntaxError)
deriving DecidableEq

def Site.ofEvent : Event → Site
  | .placeholder => .opening none
  | .start _ link => .opening link
  | .finish => .closing
  | .token kind => .token kind
  | .error found => .error found

/-- The sites of events with their places, the first one at the given place. -/
def sites (place : Nat) : List Event → List (Nat × Site)
  | [] => []
  | event :: rest => (place, .ofEvent event) :: sites (place + 1) rest

/-- Follows the links from a start whose later sites are given. Answers with the places of the nodes
that wrap it, innermost first, and with the sites in which these nodes are gone. -/
def follow : List (Nat × Site) → Option Nat → List Nat × List (Nat × Site)
  | sites, none => ([], sites)
  | sites, some 0 => ([], sites)
  | [], some (_ + 1) => ([], [])
  | (place, .opening link) :: rest, some 1 =>
    (place :: (follow rest link).1, (place, .gone) :: (follow rest link).2)
  | (place, _) :: rest, some 1 => ([], (place, .gone) :: rest)
  | site :: rest, some (distance + 2) =>
    ((follow rest (some (distance + 1))).1, site :: (follow rest (some (distance + 1))).2)

@[simp] theorem follow_none (spots : List (Nat × Site)) : follow spots none = ([], spots) := by
  cases spots <;> rfl

theorem length_follow (spots : List (Nat × Site)) (link : Option Nat) :
    (follow spots link).2.length = spots.length := by
  fun_induction follow spots link <;> simp_all

/-- The brackets of a row of sites. -/
def marks : List (Nat × Site) → List Mark
  | [] => []
  | (_, .gone) :: rest => marks rest
  | (place, .opening link) :: rest =>
    ((follow rest link).1.reverse ++ [place]).map .opening ++ marks (follow rest link).2
  | (_, .closing) :: rest => .closing :: marks rest
  | (_, .token kind) :: rest => .token kind :: marks rest
  | (_, .error found) :: rest => .error found :: marks rest
termination_by spots => spots.length
decreasing_by
  all_goals simp [length_follow]

/-- The places of the starts among sites. -/
def openings : List (Nat × Site) → List Nat
  | [] => []
  | (place, .opening _) :: rest => place :: openings rest
  | _ :: rest => openings rest

/-- The places of opening brackets. -/
def places : List Mark → List Nat
  | [] => []
  | .opening place :: rest => place :: places rest
  | _ :: rest => places rest

theorem places_append (front back : List Mark) :
    places (front ++ back) = places front ++ places back := by
  induction front with
  | nil => rfl
  | cons mark front ih => cases mark <;> simp [places, ih]

theorem places_map_opening (found : List Nat) : places (found.map .opening) = found := by
  induction found with
  | nil => rfl
  | cons place found ih => rw [List.map_cons, places, ih]

theorem follow_perm (spots : List (Nat × Site)) (link : Option Nat) :
    ((follow spots link).1 ++ openings (follow spots link).2).Perm (openings spots) := by
  fun_induction follow spots link with
  | case1 | case2 | case3 => exact .refl _
  | case4 place link rest ih => exact ih.cons place
  | case5 place site rest hsite =>
      cases site with
      | opening link => exact (hsite link rfl).elim
      | _ => exact .refl _
  | case6 site rest distance ih =>
      obtain ⟨place, site⟩ := site
      cases site with
      | opening link => exact List.perm_middle.trans (ih.cons place)
      | _ => exact ih

theorem places_marks (spots : List (Nat × Site)) :
    (places (marks spots)).Perm (openings spots) := by
  fun_induction marks spots with
  | case1 => exact .refl _
  | case3 place link rest ih =>
      rw [places_append, places_map_opening, openings, List.append_assoc]
      have hrest : ((follow rest link).1.reverse ++ places (marks (follow rest link).2)).Perm
          (openings rest) :=
        ((List.reverse_perm _).append ih).trans (follow_perm rest link)
      exact List.perm_middle.trans (hrest.cons place)
  | case2 _ _ ih | case4 _ _ ih | case5 _ _ _ ih | case6 _ _ _ ih => exact ih

/-- A building step that opens one node at a time. -/
def oneByOne : BuildStep → List BuildStep
  | .openAll kinds => kinds.map fun kind => .openAll [kind]
  | step => [step]

/-- The building steps of a bracket, if the nodes are of the given kinds. A node without a kind is
not opened. -/
def markSteps (kinds : Nat → Option SyntaxKind) : Mark → List BuildStep
  | .opening place => (kinds place).toList.map fun kind => .openAll [kind]
  | .closing => [.close]
  | .token kind => [.token kind]
  | .error found => [.error found]

/-- What an event is among sites, when some nodes have been opened before. -/
inductive Reads (kinds : Nat → Option SyntaxKind) : Event → Nat × Site → Prop
  | gone (place : Nat) : Reads kinds .placeholder (place, .gone)
  | undecided {place : Nat} : kinds place = none → Reads kinds .placeholder (place, .opening none)
  | start {place : Nat} {kind : SyntaxKind} (link : Option Nat) : kinds place = some kind →
      Reads kinds (.start kind link) (place, .opening link)
  | finish (place : Nat) : Reads kinds .finish (place, .closing)
  | token (place : Nat) (kind : TokenKind) : Reads kinds (.token kind) (place, .token kind)
  | error (place : Nat) (found : SyntaxError) : Reads kinds (.error found) (place, .error found)

section Reads

variable {kinds : Nat → Option SyntaxKind} {events : List Event} {spots : List (Nat × Site)}

theorem followLink_eq (h : List.Forall₂ (Reads kinds) events spots) (link : Option Nat) :
    (Event.followLink events link).1 = (follow spots link).1.filterMap kinds ∧
      List.Forall₂ (Reads kinds) (Event.followLink events link).2 (follow spots link).2 := by
  -- Events and sites are passed in step.
  fun_induction follow spots link generalizing events with
  | case1 spots =>
      rw [show Event.followLink events none = ([], events) by cases events <;> rfl]
      exact ⟨rfl, h⟩
  | case2 spots =>
      rw [show Event.followLink events (some 0) = ([], events) by cases events <;> rfl]
      exact ⟨rfl, h⟩
  | case3 distance =>
      cases h
      exact ⟨rfl, .nil⟩
  | case4 place link rest ih =>
      cases h with
      | cons hevent hrest =>
          cases hevent with
          | undecided hkind =>
              rw [follow_none]
              refine ⟨?_, .cons (.gone place) hrest⟩
              rw [List.filterMap_cons, hkind]
              rfl
          | start link hkind =>
              obtain ⟨hkinds, hrest⟩ := ih hrest
              refine ⟨?_, .cons (.gone place) hrest⟩
              rw [List.filterMap_cons, hkind, ← hkinds]
              rfl
  | case5 place site rest hsite =>
      cases h with
      | cons hevent hrest =>
          cases hevent with
          | undecided => exact (hsite _ rfl).elim
          | start => exact (hsite _ rfl).elim
          | gone | finish | token | error => exact ⟨rfl, .cons (.gone place) hrest⟩
  | case6 site rest distance ih =>
      cases h with
      | cons hevent hrest =>
          obtain ⟨hkinds, hrest⟩ := ih hrest
          rw [Event.followLink]
          exact ⟨hkinds, .cons hevent hrest⟩

theorem flatMap_resolve (h : List.Forall₂ (Reads kinds) events spots) :
    (Event.resolve events).flatMap oneByOne = (marks spots).flatMap (markSteps kinds) := by
  fun_induction marks spots generalizing events with
  | case1 => cases h; simp [Event.resolve]
  | case2 place rest ih =>
      cases h with
      | cons hevent hrest =>
          cases hevent
          rw [Event.resolve, ih hrest]
  | case3 place link rest ih =>
      cases h with
      | cons hevent hrest =>
          -- Nodes that are linked are opened together, and their brackets one behind the other.
          have hopen (found : List Nat) :
              (found.map Mark.opening).flatMap (markSteps kinds) =
                (found.filterMap kinds).map fun kind => .openAll [kind] := by
            induction found with
            | nil => rfl
            | cons place found ih =>
                rw [List.map_cons, List.flatMap_cons, ih, List.filterMap_cons, markSteps]
                cases kinds place <;> rfl
          obtain ⟨hkinds, hfollowed⟩ := followLink_eq hrest link
          rw [List.flatMap_append, hopen, List.filterMap_append, List.filterMap_reverse, ← hkinds,
            ← ih hfollowed]
          cases hevent with
          | undecided hkind => simp [Event.resolve, hkind, Event.followLink]
          | start link hkind => simp [Event.resolve, hkind, oneByOne]
  | case4 place rest ih | case5 place kind rest ih | case6 place found rest ih =>
      cases h with
      | cons hevent hrest =>
          cases hevent
          rw [Event.resolve, List.flatMap_cons, List.flatMap_cons, ih hrest]
          rfl

end Reads

def linkOf : Site → Option Nat
  | .opening link => link
  | _ => none

/-- A link leads to one of the sites that follow. -/
def Within (spots : List (Nat × Site)) (link : Option Nat) : Prop :=
  ∀ distance ∈ link, distance ≤ spots.length

/-- No link leads behind the last site. -/
def Inside : List (Nat × Site) → Prop
  | [] => True
  | site :: rest => Within rest (linkOf site.2) ∧ Inside rest

section Inside

variable {spots : List (Nat × Site)} {link : Option Nat}

theorem follow_append (hinside : Inside spots) (hlink : Within spots link)
    (later : List (Nat × Site)) :
    follow (spots ++ later) link = ((follow spots link).1, (follow spots link).2 ++ later) ∧
      Inside (follow spots link).2 := by
  fun_induction follow spots link with
  | case1 spots => exact ⟨follow_none _, hinside⟩
  | case2 spots => exact ⟨by cases spots <;> cases later <;> rfl, hinside⟩
  | case3 distance => exact absurd (hlink _ rfl) (Nat.not_succ_le_zero _)
  | case4 place link rest ih =>
      obtain ⟨heq, hrest⟩ := ih hinside.2 hinside.1
      exact ⟨by rw [List.cons_append, follow, heq, List.cons_append], nofun, hrest⟩
  | case5 place site rest hsite =>
      refine ⟨?_, nofun, hinside.2⟩
      cases site with
      | opening link => exact (hsite link rfl).elim
      | _ => rfl
  | case6 site rest distance ih =>
      obtain ⟨heq, hrest⟩ := ih hinside.2 fun d hd => by
        have := hlink (distance + 2) rfl
        cases hd
        exact Nat.le_of_succ_le_succ this
      refine ⟨by rw [List.cons_append, follow, heq, List.cons_append], ?_, hrest⟩
      rw [Within, length_follow]
      exact hinside.1

theorem marks_append (hinside : Inside spots) (later : List (Nat × Site)) :
    marks (spots ++ later) = marks spots ++ marks later := by
  fun_induction marks spots with
  | case1 => rfl
  | case3 place link rest ih =>
      have hlink : Within rest link := hinside.1
      obtain ⟨heq, hrest⟩ := follow_append hinside.2 hlink later
      rw [List.cons_append, marks, heq, ih hrest, List.append_assoc]
  | case2 _ _ ih => rw [List.cons_append, marks, ih hinside.2]
  | case4 _ _ ih | case5 _ _ _ ih | case6 _ _ _ ih =>
      rw [List.cons_append, marks, ih hinside.2, List.cons_append]

end Inside

/-- Puts a node behind all others, and links the node at the given index to it. -/
def tie (node wrapper index : Nat) (spots : List (Nat × Site)) : List (Nat × Site) :=
  spots.set index (node, .opening (some (spots.length - index))) ++ [(wrapper, .opening none)]

/-- Puts the bracket of a wrapper in front of the bracket of its node. -/
def graft (node wrapper : Nat) : Mark → List Mark
  | .opening place => if place = node then [.opening wrapper, .opening place] else [.opening place]
  | mark => [mark]

section Graft

variable {node wrapper : Nat}

theorem flatMap_graft_of_notMem {row : List Mark} (h : node ∉ places row) :
    row.flatMap (graft node wrapper) = row := by
  induction row with
  | nil => rfl
  | cons mark row ih =>
      cases mark with
      | opening place =>
          rw [places, List.mem_cons, not_or] at h
          rw [List.flatMap_cons, ih h.2, graft, if_neg (Ne.symm h.1)]
          rfl
      | closing | token | error =>
          rw [List.flatMap_cons, ih h]
          rfl

theorem tie_cons (site : Nat × Site) (spots : List (Nat × Site)) (index : Nat) :
    tie node wrapper (index + 1) (site :: spots) = site :: tie node wrapper index spots := by
  rw [tie, tie, List.set_cons_succ, List.length_cons, Nat.add_sub_add_right, List.cons_append]

theorem tie_zero (site : Nat × Site) (spots : List (Nat × Site)) :
    tie node wrapper 0 (site :: spots) =
      (node, .opening (some (spots.length + 1))) :: (spots ++ [(wrapper, .opening none)]) :=
  rfl

theorem follow_last (spots : List (Nat × Site)) :
    follow (spots ++ [(wrapper, .opening none)]) (some (spots.length + 1)) =
      ([wrapper], spots ++ [(wrapper, .gone)]) := by
  induction spots with
  | nil => rfl
  | cons site spots ih => rw [List.cons_append, List.length_cons, follow, ih, List.cons_append]

variable (wrapper) in
/-- A chain of links either ends at the node, and then goes on to the wrapper, or passes by. -/
theorem follow_tie {spots : List (Nat × Site)} {link : Option Nat} {index : Nat}
    (hinside : Inside spots) (hlink : Within spots link)
    (hat : spots[index]? = some (node, .opening none)) :
    (∃ found, (follow spots link).1 = found ++ [node] ∧
      follow (tie node wrapper index spots) link =
        (found ++ [node, wrapper], (follow spots link).2 ++ [(wrapper, .gone)])) ∨
    ((follow spots link).2[index]? = some (node, .opening none) ∧
      follow (tie node wrapper index spots) link =
        ((follow spots link).1, tie node wrapper index (follow spots link).2)) := by
  -- Either the walk ends at the node, and now goes on to the wrapper, or it does not come there.
  fun_induction follow spots link generalizing index with
  | case1 spots => exact .inr ⟨hat, follow_none _⟩
  | case2 spots => exact .inr ⟨hat, by cases spots <;> cases index <;> rfl⟩
  | case3 distance => cases hat
  | case4 place link rest ih =>
      cases index with
      | zero =>
          cases hat
          refine .inl ⟨[], by rw [follow_none]; rfl, ?_⟩
          rw [follow_none, tie_zero, follow, follow_last]
          rfl
      | succ index =>
          rw [tie_cons, follow]
          rcases ih hinside.2 hinside.1 hat with ⟨found, hfound, htied⟩ | ⟨hlater, htied⟩
          · exact .inl ⟨place :: found, by rw [hfound, List.cons_append], by rw [htied]; rfl⟩
          · exact .inr ⟨hlater, by rw [htied, tie_cons]⟩
  | case5 place site rest hsite =>
      cases index with
      | zero =>
          cases hat
          exact (hsite _ rfl).elim
      | succ index =>
          refine .inr ⟨hat, ?_⟩
          rw [tie_cons, tie_cons]
          cases site with
          | opening link => exact (hsite link rfl).elim
          | _ => rfl
  | case6 site rest distance ih =>
      have hwithin : Within rest (some (distance + 1)) := fun d hd => by
        have := hlink (distance + 2) rfl
        cases hd
        exact Nat.le_of_succ_le_succ this
      cases index with
      | zero =>
          cases hat
          obtain ⟨heq, -⟩ := follow_append hinside.2 hwithin [(wrapper, .opening none)]
          refine .inr ⟨rfl, ?_⟩
          rw [tie_zero, tie_zero, follow, heq, length_follow]
      | succ index =>
          rw [tie_cons, follow]
          rcases ih hinside.2 hwithin hat with ⟨found, hfound, htied⟩ | ⟨hlater, htied⟩
          · exact .inl ⟨found, hfound, by rw [htied, List.cons_append]⟩
          · exact .inr ⟨hlater, by rw [htied, tie_cons]⟩

theorem mem_openings_of_getElem? {spots : List (Nat × Site)} {index place : Nat}
    {link : Option Nat} (hat : spots[index]? = some (place, .opening link)) :
    place ∈ openings spots := by
  induction spots generalizing index with
  | nil => cases hat
  | cons site spots ih =>
      obtain ⟨other, site⟩ := site
      cases index with
      | zero =>
          cases hat
          exact List.mem_cons_self
      | succ index =>
          cases site with
          | opening link => exact List.mem_cons_of_mem _ (ih hat)
          | _ => exact ih hat

theorem marks_append_gone {spots : List (Nat × Site)} (hinside : Inside spots) (place : Nat) :
    marks (spots ++ [(place, .gone)]) = marks spots := by
  rw [marks_append hinside, marks, marks, List.append_nil]

theorem marks_tie {spots : List (Nat × Site)} {index : Nat} (hinside : Inside spots)
    (hnodup : (openings spots).Nodup) (hat : spots[index]? = some (node, .opening none)) :
    marks (tie node wrapper index spots) = (marks spots).flatMap (graft node wrapper) := by
  fun_induction marks spots generalizing index with
  | case1 => cases hat
  | case3 place link rest ih =>
      obtain ⟨hplace, hnodup⟩ := List.nodup_cons.1 hnodup
      cases index with
      | zero =>
          cases hat
          have hnode : node ∉ places (marks rest) := fun h => hplace ((places_marks rest).subset h)
          rw [tie_zero, marks, follow_last, follow_none, marks_append_gone hinside.2,
            List.flatMap_append, flatMap_graft_of_notMem hnode]
          simp [graft]
      | succ index =>
          have hlink : Within rest link := hinside.1
          obtain ⟨-, hinside'⟩ := follow_append hinside.2 hlink []
          have hnodup' := (follow_perm rest link).nodup_iff.2 hnodup
          have hne : node ≠ place := by
            rintro rfl
            exact hplace (mem_openings_of_getElem? hat)
          rw [tie_cons, marks]
          -- The links of an earlier node either take the wrapped one along or pass it by.
          rcases follow_tie wrapper hinside.2 hlink hat with
            ⟨found, hfound, htied⟩ | ⟨hlater, htied⟩
          · rw [hfound, List.append_assoc] at hnodup'
            have hnode : node ∉ found ∧ node ∉ openings (follow rest link).2 := by
              have hmem := (List.perm_middle.nodup_iff.1 hnodup').notMem
              simpa using hmem
            have hback : node ∉ places (marks (follow rest link).2) :=
              fun h => hnode.2 ((places_marks _).subset h)
            have hfront : node ∉ places ((found.reverse ++ [place]).map .opening) := by
              rw [places_map_opening]
              simp [hnode.1, hne]
            rw [htied, hfound, marks_append_gone hinside', List.flatMap_append,
              flatMap_graft_of_notMem hback]
            congr 1
            simp only [List.reverse_append, List.reverse_cons, List.reverse_nil, List.nil_append,
              List.cons_append, List.map_cons, List.flatMap_cons, flatMap_graft_of_notMem hfront]
            simp [graft]
          · have hnode : node ∉ (follow rest link).1 := fun h =>
              (List.disjoint_of_nodup_append hnodup') h (mem_openings_of_getElem? hlater)
            have hfront : node ∉
                places (((follow rest link).1.reverse ++ [place]).map .opening) := by
              rw [places_map_opening]
              simp [hnode, hne]
            rw [htied, List.flatMap_append, flatMap_graft_of_notMem hfront,
              ih hinside' hnodup'.of_append_right hlater]
  | case2 place rest ih =>
      cases index with
      | zero => cases hat
      | succ index => rw [tie_cons, marks, ih hinside.2 hnodup hat]
  | case4 place rest ih | case5 place _ rest ih | case6 place _ rest ih =>
      cases index with
      | zero => cases hat
      | succ index =>
          rw [tie_cons, marks, ih hinside.2 hnodup hat]
          rfl

end Graft

section Recordings

variable {events : List Event}

theorem length_sites (place : Nat) (events : List Event) :
    (sites place events).length = events.length := by
  induction events generalizing place with
  | nil => rfl
  | cons event events ih => rw [sites, List.length_cons, ih, List.length_cons]

theorem sites_append (place : Nat) (front back : List Event) :
    sites place (front ++ back) = sites place front ++ sites (place + front.length) back := by
  induction front generalizing place with
  | nil => rfl
  | cons event front ih =>
      rw [List.cons_append, sites, ih, sites, List.cons_append, List.length_cons,
        Nat.add_right_comm, Nat.add_assoc]

theorem getElem?_sites (place : Nat) (events : List Event) (index : Nat) :
    (sites place events)[index]? =
      events[index]?.map fun event => (place + index, .ofEvent event) := by
  induction events generalizing place index with
  | nil => rfl
  | cons event events ih =>
      cases index with
      | zero => rfl
      | succ index => rw [sites, List.getElem?_cons_succ, ih, Nat.add_right_comm]; rfl

theorem sites_set (place : Nat) (events : List Event) (index : Nat) (event : Event) :
    sites place (events.set index event) =
      (sites place events).set index (place + index, .ofEvent event) := by
  induction events generalizing place index with
  | nil => rfl
  | cons first events ih =>
      cases index with
      | zero => rfl
      | succ index => rw [List.set_cons_succ, sites, ih, sites, List.set_cons_succ,
          Nat.add_right_comm]; rfl

theorem openings_sites (place : Nat) (events : List Event) :
    (openings (sites place events)).Sublist (List.range' place events.length) := by
  induction events generalizing place with
  | nil => exact .slnil
  | cons event events ih =>
      rw [List.length_cons, List.range'_succ]
      cases event with
      | placeholder | start => exact (ih _).cons_cons _
      | finish | token | error => exact (ih _).cons _

/-- The kind of the node that starts at a place, if it is decided. -/
def kindAt (events : List Event) (place : Nat) : Option SyntaxKind :=
  match events[place]? with
  | some (.start kind _) => some kind
  | _ => none

theorem reads_sites (events : List Event) :
    List.Forall₂ (Reads (kindAt events)) events (sites 0 events) := by
  suffices h : ∀ front back : List Event,
      List.Forall₂ (Reads (kindAt (front ++ back))) back (sites front.length back) from h [] events
  intro front back
  induction back generalizing front with
  | nil => exact .nil
  | cons event back ih =>
      have hat : (front ++ event :: back)[front.length]? = some event := by simp
      refine .cons ?_ (by simpa using ih (front ++ [event]))
      cases event with
      | placeholder => exact .undecided (by rw [kindAt, hat])
      | start kind link => exact .start link (by rw [kindAt, hat])
      | finish => exact .finish _
      | token kind => exact .token _ kind
      | error found => exact .error _ found

/-- A link leads from one place to another. -/
def Linked (events : List Event) (place target : Nat) : Prop :=
  ∃ kind distance, events[place]? = some (.start kind (some distance)) ∧ target = place + distance

/-- Every link of a recording leads to one of its events. -/
def LinksInside (events : List Event) : Prop :=
  ∀ place target, Linked events place target → target < events.length

theorem inside_sites (h : LinksInside events) (place : Nat) : Inside (sites place events) := by
  induction events generalizing place with
  | nil => trivial
  | cons event events ih =>
      refine ⟨fun distance hdistance => ?_, ih ?_ _⟩
      · rw [length_sites]
        cases event with
        | start kind link =>
            cases hdistance
            have := h 0 _ ⟨kind, distance, rfl, rfl⟩
            rw [List.length_cons] at this
            omega
        | placeholder | finish | token | error => cases hdistance
      · rintro index target ⟨kind, distance, hat, rfl⟩
        have := h (index + 1) _ ⟨kind, distance, hat, rfl⟩
        rw [List.length_cons] at this
        omega

def brackets (events : List Event) : List Mark :=
  marks (sites 0 events)

theorem nodup_places_brackets (events : List Event) : (places (brackets events)).Nodup :=
  (places_marks _).nodup_iff.2 ((openings_sites 0 events).nodup List.nodup_range')

theorem flatMap_resolve_eq (events : List Event) :
    (Event.resolve events).flatMap oneByOne =
      (brackets events).flatMap (markSteps (kindAt events)) :=
  flatMap_resolve (reads_sites events)

theorem brackets_append (h : LinksInside events) (event : Event) :
    brackets (events ++ [event]) = brackets events ++ marks [(events.length, .ofEvent event)] := by
  rw [brackets, sites_append, marks_append (inside_sites h 0), Nat.zero_add]
  rfl

theorem brackets_set {place : Nat} (hat : events[place]? = some .placeholder) (kind : SyntaxKind) :
    brackets (events.set place (.start kind none)) = brackets events := by
  have hsite : (sites 0 events)[place]? = some (0 + place, .opening none) := by
    rw [getElem?_sites, hat]
    rfl
  obtain ⟨hlt, hget⟩ := List.getElem?_eq_some_iff.1 hsite
  rw [brackets, sites_set, Site.ofEvent, ← hget, List.set_getElem_self, brackets]

theorem brackets_tie {place : Nat} {kind : SyntaxKind} (h : LinksInside events)
    (hat : events[place]? = some (.start kind none)) :
    brackets (events.set place (.start kind (some (events.length - place))) ++ [.placeholder]) =
      (brackets events).flatMap (graft place events.length) := by
  have hsite : (sites 0 events)[place]? = some (place, .opening none) := by
    rw [getElem?_sites, hat, Nat.zero_add]
    rfl
  have hnodup := (openings_sites 0 events).nodup List.nodup_range'
  rw [brackets, brackets, ← marks_tie (inside_sites h 0) hnodup hsite, tie, sites_append, sites_set,
    length_sites, List.length_set, Nat.zero_add, Nat.zero_add]
  rfl

end Recordings

end PatternSyntax.Proofs.Grafts
