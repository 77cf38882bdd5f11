import PatternSyntax.Proofs.Coverage
import PatternSyntax.Recording.Replay

/-!
Resolving the links of a recording. A node that was wrapped is opened together with the nodes around
it, and what is left of their own starts opens nothing.
-/

namespace PatternSyntax.Proofs.Links

open PatternSyntax.Proofs.Coverage

variable (locate : Nat → Nat)

mutual

/-- The steps that build an outline. The topmost node is opened inside nodes of the given kinds,
which are opened at the same place, the outermost one first. -/
def steps (locate : Nat → Nat) (outer : List SyntaxKind) : Outline → List BuildStep
  | .token kind => [.token kind]
  | .error kind index => [.error ⟨kind, .empty (locate index)⟩]
  | .node kind parts =>
    .openAll (outer ++ [.node kind]) :: (stepsAll locate parts ++ [.close])
  | .around kind first later =>
    steps locate (outer ++ [.node kind]) first ++ (stepsAll locate later ++ [.close])
  | .loose parts => stepsAll locate parts

/-- The steps that build a row of outlines. -/
def stepsAll (locate : Nat → Nat) : List Outline → List BuildStep
  | [] => []
  | part :: rest => steps locate [] part ++ stepsAll locate rest

end

theorem followLink_append (front back : List Event) (distance : Nat) :
    Event.followLink (front ++ back) (some (front.length + distance + 1)) =
      ((Event.followLink back (some (distance + 1))).1,
        front ++ (Event.followLink back (some (distance + 1))).2) := by
  induction front with
  | nil => simp
  | cons event front ih =>
      have hdistance : (event :: front).length + distance + 1 = front.length + distance + 2 := by
        simp only [List.length_cons]
        omega
      rw [hdistance, List.cons_append, Event.followLink, ih, List.cons_append]

theorem followLink_start (kind : SyntaxKind) (link : Option Nat) (rest : List Event) :
    Event.followLink (.start kind link :: rest) (some 1) =
      (kind :: (Event.followLink rest link).1, .placeholder :: (Event.followLink rest link).2) := by
  rw [Event.followLink]

/-- The nodes around one that ends where the given events begin, if it is linked, and what is left
of the events. -/
def wrappers (linked : Bool) (tail : List Event) : List SyntaxKind × List Event :=
  Event.followLink tail (if linked then some 1 else none)

theorem wrappers_false (tail : List Event) : wrappers false tail = ([], tail) := by
  simp [wrappers, Event.followLink]

/-- The link of a node that takes as many events as given from its start to its end. -/
def linkOver (linked : Bool) (size : Nat) : Option Nat :=
  if linked then some size else none

theorem followLink_linkOver (linked : Bool) (front tail : List Event) :
    Event.followLink (front ++ tail) (linkOver linked (front.length + 1)) =
      ((wrappers linked tail).1, front ++ (wrappers linked tail).2) := by
  cases linked with
  | false => simp [linkOver, wrappers, Event.followLink]
  | true => exact followLink_append front tail 0

theorem wrappers_start (kind : SyntaxKind) (linked : Bool) (front tail : List Event) :
    wrappers true (.start kind (linkOver linked (front.length + 1)) :: (front ++ tail)) =
      (kind :: (wrappers linked tail).1, .placeholder :: (front ++ (wrappers linked tail).2)) := by
  rw [wrappers, if_pos rfl, followLink_start, followLink_linkOver]

theorem resolve_start (kind : SyntaxKind) (linked : Bool) (front tail : List Event) :
    Event.resolve (.start kind (linkOver linked (front.length + 1)) :: (front ++ tail)) =
      .openAll ((wrappers linked tail).1.reverse ++ [kind]) ::
        Event.resolve (front ++ (wrappers linked tail).2) := by
  rw [Event.resolve, followLink_linkOver]

theorem resolve_loose (locate : Nat → Nat) (link : Option Nat) (parts : List Outline)
    (tail : List Event) :
    Event.resolve (Outline.events locate link (.loose parts) ++ tail) =
      Event.resolve (Outline.eventsAll locate parts ++ tail) := by
  rw [Outline.events]
  split
  · rw [‹Outline.eventsAll locate parts = []›]
  · rw [List.cons_append, Event.resolve]

mutual

theorem resolve_events {c stop : Cursor} (outline : Outline) (hnode : IsNode outline)
    (hcovers : Covers c [outline] stop) (linked : Bool) (tail : List Event) :
    Event.resolve (Outline.events locate (linkOver linked (outline.size - outline.lead)) outline ++
        tail) =
      steps locate (wrappers linked tail).1.reverse outline ++
        Event.resolve (wrappers linked tail).2 := by
  cases outline with
  | token kind => cases hnode
  | error kind index => cases hnode
  | loose parts => cases hnode
  | node kind parts =>
      cases hcovers with
      | node hinner _ hrest =>
          have hlength : (Outline.node kind parts).size - (Outline.node kind parts).lead =
              (Outline.eventsAll locate parts ++ [Event.finish]).length + 1 := by
            simp [Outline.size, Outline.lead, Outline.length_eventsAll]
          rw [hlength, Outline.events, List.cons_append, resolve_start, List.append_assoc,
            resolve_eventsAll parts hinner, steps]
          simp [Event.resolve]
  | around kind first later =>
      cases hcovers with
      | around _ hfirst hhead hlater hrest =>
          have hlength : (Outline.around kind first later).size -
              (Outline.around kind first later).lead =
              (Outline.eventsAll locate later ++ [Event.finish]).length + 1 := by
            simp [Outline.size, Outline.lead, Outline.length_eventsAll]
          rw [hlength, Outline.events, List.append_assoc, List.cons_append,
            show some (first.size - first.lead) = linkOver true (first.size - first.lead) from rfl,
            resolve_events first hfirst hhead, wrappers_start, Event.resolve, List.append_assoc,
            resolve_eventsAll later hlater, steps]
          simp [Event.resolve]

theorem resolve_eventsAll {c stop : Cursor} (parts : List Outline)
    (hcovers : Covers c parts stop) (tail : List Event) :
    Event.resolve (Outline.eventsAll locate parts ++ tail) =
      stepsAll locate parts ++ Event.resolve tail := by
  cases parts with
  | nil => rfl
  | cons part rest =>
      rw [Outline.eventsAll, stepsAll, List.append_assoc, List.append_assoc]
      cases hcovers with
      | token hrest =>
          rw [← resolve_eventsAll rest hrest tail]
          simp [Outline.events, steps, Event.resolve]
      | error hrest =>
          rw [← resolve_eventsAll rest hrest tail]
          simp [Outline.events, steps, Event.resolve]
      | @node _ _ _ kind inner _ hinner hfits hrest =>
          rw [← resolve_eventsAll rest hrest tail]
          have hnode := resolve_events (.node kind inner) trivial (.node hinner hfits (.nil _))
            false (Outline.eventsAll locate rest ++ tail)
          rwa [wrappers_false] at hnode
      | @around _ _ _ _ kind first later _ hkind hfirst hhead hlater hrest =>
          rw [← resolve_eventsAll rest hrest tail]
          have haround := resolve_events (.around kind first later) trivial
            (.around hkind hfirst hhead hlater (.nil _)) false
            (Outline.eventsAll locate rest ++ tail)
          rwa [wrappers_false] at haround
      | loose hinner hrest =>
          rw [← resolve_eventsAll rest hrest tail, resolve_loose, steps,
            resolve_eventsAll _ hinner]

end

end PatternSyntax.Proofs.Links
