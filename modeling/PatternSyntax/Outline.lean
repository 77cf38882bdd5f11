import PatternSyntax.Recording.Event

/-!
What the grammar makes of a text: nodes over significant tokens and errors. An outline knows no
offsets and no blanks; it says in which order the nodes were begun, and so has a recording.
-/

namespace PatternSyntax

/-- A part of a parsed text. -/
inductive Outline where
  /-- A significant token. -/
  | token (kind : TokenKind)
  /-- An error before the significant token with the given index. -/
  | error (kind : ErrorKind) (index : Nat)
  /-- A node that was begun before its parts. -/
  | node (kind : NodeKind) (parts : List Outline)
  /-- A node that was begun after its first part, and wraps it. -/
  | around (kind : NodeKind) (first : Outline) (later : List Outline)
  /-- Parts of a node that was begun and given up. -/
  | loose (parts : List Outline)
deriving Repr, Inhabited

namespace Outline

mutual

/-- The number of events that record an outline. -/
def size : Outline → Nat
  | token _ => 1
  | error _ _ => 1
  | node _ parts => sizeAll parts + 2
  | around _ first later => first.size + (sizeAll later + 2)
  | loose parts => if sizeAll parts = 0 then 0 else sizeAll parts + 1

/-- The number of events that record a row of outlines. -/
def sizeAll : List Outline → Nat
  | [] => 0
  | part :: rest => part.size + sizeAll rest

end

/-- How many events of an outline come before the start of its topmost node. -/
def lead : Outline → Nat
  | around _ first _ => first.size
  | loose (part :: _) => part.lead + 1
  | _ => 0

/-- The topmost node of an outline, where it has one. -/
def top? : Outline → Option NodeKind
  | node kind _ => some kind
  | around kind _ _ => some kind
  | loose (part :: _) => part.top?
  | _ => none

mutual

/-- The recording of an outline. The offset of a token with a given index is found by `locate`, and
`link` is the link of the topmost node. -/
def events (locate : Nat → Nat) (link : Option Nat) : Outline → List Event
  | token kind => [.token kind]
  | error kind index => [.error ⟨kind, .empty (locate index)⟩]
  | node kind parts => .start (.node kind) link :: (eventsAll locate parts ++ [.finish])
  | around kind first later =>
    events locate (some (first.size - first.lead)) first ++
      .start (.node kind) link :: (eventsAll locate later ++ [.finish])
  | loose parts =>
    match eventsAll locate parts with
    | [] => []
    | inner => .placeholder :: inner

/-- The recording of a row of outlines. -/
def eventsAll (locate : Nat → Nat) : List Outline → List Event
  | [] => []
  | part :: rest => events locate none part ++ eventsAll locate rest

end

mutual

/-- The significant tokens of an outline, from left to right. -/
def tokens : Outline → List TokenKind
  | token kind => [kind]
  | error _ _ => []
  | node _ parts => tokensAll parts
  | around _ first later => first.tokens ++ tokensAll later
  | loose parts => tokensAll parts

/-- The significant tokens of a row of outlines, from left to right. -/
def tokensAll : List Outline → List TokenKind
  | [] => []
  | part :: rest => part.tokens ++ tokensAll rest

end

mutual

/-- Whether there is an error in an outline. -/
def hasError : Outline → Bool
  | token _ => false
  | error _ _ => true
  | node _ parts => hasErrorAll parts
  | around _ first later => first.hasError || hasErrorAll later
  | loose parts => hasErrorAll parts

/-- Whether there is an error in a row of outlines. -/
def hasErrorAll : List Outline → Bool
  | [] => false
  | part :: rest => part.hasError || hasErrorAll rest

end

mutual

theorem length_events (locate : Nat → Nat) (link : Option Nat) (outline : Outline) :
    (events locate link outline).length = outline.size := by
  cases outline with
  | token kind => rfl
  | error kind index => rfl
  | node kind parts => simp [events, size, length_eventsAll locate parts]
  | around kind first later =>
    simp [events, size, length_events locate _ first, length_eventsAll locate later]
  | loose parts =>
    have inner := length_eventsAll locate parts
    simp only [events, size]
    split
    · simp_all
    · rename_i h
      have : sizeAll parts ≠ 0 := by
        intro none
        rw [none] at inner
        exact h (List.length_eq_zero_iff.1 inner)
      simp [this, inner]

theorem length_eventsAll (locate : Nat → Nat) (parts : List Outline) :
    (eventsAll locate parts).length = sizeAll parts := by
  cases parts with
  | nil => rfl
  | cons part rest =>
    simp [eventsAll, sizeAll, length_events locate _ part, length_eventsAll locate rest]

end

end Outline

end PatternSyntax
