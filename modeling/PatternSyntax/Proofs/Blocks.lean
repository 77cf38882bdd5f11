import PatternSyntax.Proofs.Grafts
import PatternSyntax.Proofs.Markers
import PatternSyntax.Proofs.Progress

/-!
Blocks of events. What outlines record is balanced, its links lead to starts of its own, and its
tokens are those that are passed.
-/

namespace PatternSyntax.Proofs.Blocks

open PatternSyntax.Proofs.Coverage
open PatternSyntax.Proofs.Grafts
open PatternSyntax.Proofs.Markers

variable {events inner block : List Event} {kind : SyntaxKind} {p q : Recorder}

section OpenBehind

variable {α : Type} {closes opens : α → Nat}

/-- How many brackets are open behind a row, if as many as given are open before it. An element
first closes some and then opens others; where it closes more than are open, there is no answer. -/
def openBehind (closes opens : α → Nat) : Nat → List α → Option Nat
  | depth, [] => some depth
  | depth, first :: rest =>
    if closes first ≤ depth then
      openBehind closes opens (depth - closes first + opens first) rest
    else
      none

theorem openBehind_cons {first : α} (h : closes first = 0) (depth : Nat) (rest : List α) :
    openBehind closes opens depth (first :: rest) =
      openBehind closes opens (depth + opens first) rest := by
  rw [openBehind, h, if_pos (Nat.zero_le _), Nat.sub_zero]

theorem openBehind_append (depth : Nat) (front back : List α) :
    openBehind closes opens depth (front ++ back) =
      (openBehind closes opens depth front).bind fun depth =>
        openBehind closes opens depth back := by
  induction front generalizing depth with
  | nil => rfl
  | cons first front ih =>
      rw [List.cons_append, openBehind, openBehind, ih]
      split
      · rfl
      · rfl

theorem openBehind_add {depth last : Nat} {row : List α}
    (h : openBehind closes opens depth row = some last) (outer : Nat) :
    openBehind closes opens (depth + outer) row = some (last + outer) := by
  induction row generalizing depth with
  | nil => rw [openBehind, ← Option.some.inj h]
  | cons first row ih =>
      rw [openBehind] at h ⊢
      split at h
      · rename_i hle
        rw [if_pos (Nat.le_add_right_of_le hle), ← ih h]
        congr 1
        omega
      · cases h

end OpenBehind

/-- How many nodes an event finishes. -/
def closedBy : Event → Nat
  | .finish => 1
  | _ => 0

/-- How many nodes an event starts. -/
def openedBy : Event → Nat
  | .start _ _ => 1
  | _ => 0

/-- Each start has its finish behind it, and each finish its start before it. -/
def Balanced (events : List Event) : Prop :=
  openBehind closedBy openedBy 0 events = some 0

theorem balanced_nil : Balanced [] :=
  rfl

theorem Balanced.append {front back : List Event} (hfront : Balanced front)
    (hback : Balanced back) : Balanced (front ++ back) := by
  rw [Balanced, openBehind_append, hfront]
  exact hback

theorem Balanced.cons {event : Event} (hcloses : closedBy event = 0) (hopens : openedBy event = 0)
    (h : Balanced events) : Balanced (event :: events) := by
  rw [Balanced, openBehind_cons hcloses, hopens]
  exact h

theorem Balanced.node (h : Balanced inner) (kind : SyntaxKind) (link : Option Nat) :
    Balanced (.start kind link :: (inner ++ [.finish])) := by
  have hinner : openBehind closedBy openedBy (0 + 1) inner = some (0 + 1) := openBehind_add h 1
  rewrite [Balanced, openBehind_cons (show closedBy (.start kind link) = 0 from rfl),
    openBehind_append, openedBy, hinner]
  rfl

mutual

theorem balanced_events (locate : Nat → Nat) (link : Option Nat) (outline : Outline) :
    Balanced (outline.events locate link) := by
  cases outline with
  | token kind => exact balanced_nil.cons rfl rfl
  | error kind index => exact balanced_nil.cons rfl rfl
  | node kind parts => exact (balanced_eventsAll locate parts).node _ _
  | around kind first later =>
      exact (balanced_events locate _ first).append ((balanced_eventsAll locate later).node _ _)
  | loose parts =>
      have hparts := balanced_eventsAll locate parts
      rw [events_loose]
      split
      · exact balanced_nil
      · exact hparts.cons rfl rfl

theorem balanced_eventsAll (locate : Nat → Nat) (parts : List Outline) :
    Balanced (Outline.eventsAll locate parts) := by
  cases parts with
  | nil => exact balanced_nil
  | cons part rest =>
      exact (balanced_events locate none part).append (balanced_eventsAll locate rest)

end

/-- Every link of the events leads to a later start, which is among them or among those behind. -/
def LinkedInto (tail events : List Event) : Prop :=
  ∀ place target, Linked events place target →
    place < target ∧ ∃ kind link, (events ++ tail)[target]? = some (.start kind link)

/-- Every link of a block leads to a later start of the block. -/
def LinkedWithin (block : List Event) : Prop :=
  ∀ place target, Linked block place target →
    place < target ∧ ∃ kind link, block[target]? = some (.start kind link)

theorem linkedInto_nil_iff : LinkedInto [] block ↔ LinkedWithin block := by
  rw [LinkedInto, List.append_nil]
  exact Iff.rfl

section LinkedInto

variable {tail front back : List Event}

theorem linkedInto_nil : LinkedInto tail [] := by
  rintro place target ⟨kind, distance, hat, -⟩
  cases hat

theorem linkedInto_single {event : Event} (h : openedBy event = 0) : LinkedInto tail [event] := by
  rintro place target ⟨kind, distance, hat, -⟩
  obtain ⟨hlt, hat⟩ := List.getElem?_eq_some_iff.1 hat
  obtain rfl : place = 0 := by simpa using hlt
  simp only [List.getElem_cons_zero] at hat
  rw [hat] at h
  cases h

theorem LinkedInto.append (hfront : LinkedInto (back ++ tail) front)
    (hback : LinkedInto tail back) : LinkedInto tail (front ++ back) := by
  rintro place target ⟨kind, distance, hat, rfl⟩
  rw [List.append_assoc]
  rcases Nat.lt_or_ge place front.length with hlt | hge
  · rw [List.getElem?_append_left hlt] at hat
    exact hfront place _ ⟨kind, distance, hat, rfl⟩
  · obtain ⟨rest, rfl⟩ := Nat.exists_eq_add_of_le hge
    rw [List.getElem?_append_right hge, Nat.add_sub_cancel_left] at hat
    obtain ⟨hlt, found⟩ := hback rest _ ⟨kind, distance, hat, rfl⟩
    refine ⟨by omega, ?_⟩
    rwa [Nat.add_assoc, List.getElem?_append_right (Nat.le_add_right _ _), Nat.add_sub_cancel_left]

theorem LinkedInto.start {link : Option Nat} (h : LinkedInto tail events)
    (hlink : ∀ distance ∈ link, 0 < distance ∧
      ∃ kind link, (events ++ tail)[distance - 1]? = some (.start kind link)) :
    LinkedInto tail (.start kind link :: events) := by
  rintro place target ⟨found, distance, hat, rfl⟩
  cases place with
  | zero =>
      simp only [List.getElem?_cons_zero, Option.some.injEq, Event.start.injEq] at hat
      obtain ⟨hpos, hstart⟩ := hlink distance hat.2
      refine ⟨by omega, ?_⟩
      obtain ⟨distance, rfl⟩ : ∃ less, distance = less + 1 := ⟨distance - 1, by omega⟩
      simpa using hstart
  | succ place =>
      obtain ⟨hlt, hstart⟩ := h place _ ⟨found, distance, hat, rfl⟩
      refine ⟨by omega, ?_⟩
      rwa [Nat.add_right_comm, List.cons_append, List.getElem?_cons_succ]

/-- A node that takes in a row of events, linked to what begins behind it if it is linked at all. -/
theorem LinkedInto.node {link : Option Nat} (h : LinkedInto (.finish :: tail) inner)
    (hlink : ∀ distance ∈ link, distance = inner.length + 2 ∧
      ∃ kind link, tail[0]? = some (.start kind link)) :
    LinkedInto tail (.start kind link :: (inner ++ [.finish])) := by
  refine (h.append (linkedInto_single rfl)).start fun distance hdistance => ?_
  obtain ⟨rfl, found⟩ := hlink distance hdistance
  refine ⟨Nat.succ_pos _, ?_⟩
  rw [List.append_assoc, List.getElem?_append_right (by omega),
    show inner.length + 2 - 1 - inner.length = 1 by omega]
  exact found

theorem LinkedWithin.into (h : LinkedWithin events) (tail : List Event) :
    LinkedInto tail events := by
  intro place target hlinked
  obtain ⟨hlt, kind, link, hstart⟩ := h place target hlinked
  refine ⟨hlt, kind, link, ?_⟩
  rwa [List.getElem?_append_left (List.getElem?_eq_some_iff.1 hstart).1]

end LinkedInto

-- The start that a link leads to is not an event of the outline that is linked, but the one right
-- behind it. So what lies behind is part of the statement, as long as the outline is linked.
mutual

theorem linkedInto_events (locate : Nat → Nat) (link : Option Nat) (outline : Outline)
    (tail : List Event) (hlink : ∀ distance ∈ link, distance = outline.size - outline.lead ∧
      ∃ kind link, tail[0]? = some (.start kind link)) :
    LinkedInto tail (outline.events locate link) := by
  cases outline with
  | token kind => exact linkedInto_single rfl
  | error kind index => exact linkedInto_single rfl
  | node kind parts =>
      refine ((linkedWithin_eventsAll locate parts).into _).node fun distance hdistance => ?_
      rw [Outline.length_eventsAll]
      exact hlink distance hdistance
  | around kind first later =>
      refine .append (linkedInto_events locate _ first _ fun distance hdistance => ?_)
        (((linkedWithin_eventsAll locate later).into _).node fun distance hdistance => ?_)
      · exact ⟨(Option.some.inj hdistance).symm, _, _, rfl⟩
      · obtain ⟨rfl, hstart⟩ := hlink distance hdistance
        refine ⟨?_, hstart⟩
        rw [Outline.length_eventsAll]
        exact Nat.add_sub_cancel_left ..
  | loose parts =>
      have hparts := (linkedWithin_eventsAll locate parts).into tail
      rw [events_loose]
      split
      · exact linkedInto_nil
      · exact (linkedInto_single (show openedBy .placeholder = 0 from rfl)).append hparts

theorem linkedWithin_eventsAll (locate : Nat → Nat) (parts : List Outline) :
    LinkedWithin (Outline.eventsAll locate parts) := by
  rw [← linkedInto_nil_iff]
  cases parts with
  | nil => exact linkedInto_nil
  | cons part rest =>
      exact .append (linkedInto_events locate none part _ nofun)
        ((linkedWithin_eventsAll locate rest).into [])

end

/-- The kind of the token that an event passes. -/
def tokenOf? : Event → Option TokenKind
  | .token kind => some kind
  | _ => none

/-- The kinds of the tokens that events pass. -/
def passed (events : List Event) : List TokenKind :=
  events.filterMap tokenOf?

mutual

theorem passed_events (locate : Nat → Nat) (link : Option Nat) (outline : Outline) :
    passed (outline.events locate link) = outline.tokens := by
  cases outline with
  | token kind => rfl
  | error kind index => rfl
  | node kind parts =>
      rw [Outline.events, passed, List.filterMap_cons_none rfl, List.filterMap_append, ← passed,
        passed_eventsAll locate parts]
      exact List.append_nil _
  | around kind first later =>
      rw [Outline.events, passed, List.filterMap_append, List.filterMap_cons_none rfl,
        List.filterMap_append, ← passed, ← passed, passed_events locate _ first,
        passed_eventsAll locate later]
      exact congrArg (first.tokens ++ ·) (List.append_nil _)
  | loose parts =>
      have hparts := passed_eventsAll locate parts
      rw [events_loose, Outline.tokens, ← hparts]
      split
      · simp [*]
      · rfl

theorem passed_eventsAll (locate : Nat → Nat) (parts : List Outline) :
    passed (Outline.eventsAll locate parts) = Outline.tokensAll parts := by
  cases parts with
  | nil => rfl
  | cons part rest =>
      rw [Outline.eventsAll, passed, List.filterMap_append, ← passed, ← passed,
        passed_events locate none part, passed_eventsAll locate rest, Outline.tokensAll]

end

/-- The kinds of the significant tokens from one index to another. -/
def kindsBetween (tokens : Array Token) (i j : Nat) : List TokenKind :=
  ((tokens.toList.drop i).take (j - i)).map (·.kind)

theorem kindsBetween_append {tokens : Array Token} {i mid j : Nat} (hmid : i ≤ mid)
    (hj : mid ≤ j) :
    kindsBetween tokens i mid ++ kindsBetween tokens mid j = kindsBetween tokens i j := by
  have hdrop : tokens.toList.drop mid = (tokens.toList.drop i).drop (mid - i) := by
    rw [List.drop_drop, Nat.add_sub_cancel' hmid]
  rw [kindsBetween, kindsBetween, kindsBetween, ← List.map_append, hdrop, ← List.take_add]
  congr 2
  omega

theorem tokensAll_eq_kindsBetween {parts : List Outline} {stop : Cursor}
    (h : Covers p.cursor parts stop) :
    Outline.tokensAll parts = kindsBetween p.tokens p.index stop.index := by
  have htokens := h.tokens_append
  have hkinds : p.cursor.rest.map (·.kind) = (p.tokens.toList.drop p.index).map (·.kind) :=
    Terminal.map_kind_ofTokens _
  have hindex : stop.index + stop.rest.length = p.index + p.cursor.rest.length :=
    h.index_add_length
  have hlength := congrArg List.length htokens
  rw [List.length_append, List.length_map, List.length_map] at hlength
  rw [kindsBetween, List.map_take, ← hkinds, ← htokens, List.take_left' (by omega)]

/-- One recording is another one with a block of events behind it. Every marker that was opened for
the block is closed, and those that were open before still are. -/
structure Appends (p q : Recorder) (block : List Event) : Prop where
  tokens_eq : q.tokens = p.tokens
  textEnd_eq : q.textEnd = p.textEnd
  index_le : p.index ≤ q.index
  index_le_size : p.index ≤ p.tokens.size → q.index ≤ p.tokens.size
  events_eq : q.events = p.events ++ block
  openMarkers_eq : q.openMarkers = p.openMarkers
  markers_eq : ∃ states, q.markers = p.markers ++ states ∧ .pending ∉ states
  balanced : Balanced block
  linked : LinkedWithin block
  passed_eq : passed block = kindsBetween p.tokens p.index q.index

theorem Appends.exists_eq_grow (h : Appends p q block) :
    ∃ states, .pending ∉ states ∧ q = grow p block states q.index := by
  obtain ⟨states, hmarkers, hclosed⟩ := h.markers_eq
  refine ⟨states, hclosed, ?_⟩
  cases q
  simp only [grow, Recorder.mk.injEq]
  exact ⟨h.tokens_eq, h.textEnd_eq, trivial, h.events_eq, hmarkers, h.openMarkers_eq⟩

theorem appends_of_covers {parts : List Outline} {stop : Cursor} (h : Covers p.cursor parts stop) :
    Appends p (grow p (Outline.eventsAll (offsetOf p.tokens p.textEnd) parts)
        (Outline.markerStatesAll parts) stop.index)
      (Outline.eventsAll (offsetOf p.tokens p.textEnd) parts) := by
  have hindex : stop.index + stop.rest.length = p.index + p.cursor.rest.length :=
    h.index_add_length
  have hle := h.length_le
  have hsize := Realization.length_rest_cursor p
  exact {
    tokens_eq := rfl
    textEnd_eq := rfl
    index_le := by
      show p.index ≤ stop.index
      omega
    index_le_size := fun _ => by
      show stop.index ≤ p.tokens.size
      omega
    events_eq := rfl
    openMarkers_eq := rfl
    markers_eq := ⟨_, rfl, pending_notMem_markerStatesAll parts⟩
    balanced := balanced_eventsAll _ parts
    linked := linkedWithin_eventsAll _ parts
    passed_eq := (passed_eventsAll _ parts).trans (tokensAll_eq_kindsBetween h) }

end PatternSyntax.Proofs.Blocks
