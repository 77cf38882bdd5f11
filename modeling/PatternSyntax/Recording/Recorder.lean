import PatternSyntax.Recording.Event
import PatternSyntax.Token.Scan

/-!
Recording a parse by hand. A marker opens a node whose kind is decided when it is closed; a
checkpoint is a place to go back to. Markers, finished nodes and checkpoints are handles: they
point into the record, and a rollback can make them void.
-/

namespace PatternSyntax

/-- What became of a marker. -/
inductive MarkerState where
  | pending
  | completed
  | abandoned
deriving DecidableEq, Repr, Inhabited

/-- The handle of a node that was begun: its number among the markers, and the position of its
event. -/
structure Marker where
  id : Nat
  position : Nat
deriving DecidableEq, Repr, Inhabited

/-- The handle of a finished node: the position of its start event. -/
structure CompletedNode where
  position : Nat
  kind : SyntaxKind
deriving DecidableEq, Repr, Inhabited

/-- How much had been recorded at some time. -/
structure Checkpoint where
  index : Nat
  events : Nat
  markers : Nat
  openMarkers : Nat
deriving DecidableEq, Repr, Inhabited

/-- The offset of the significant token with a given index, or of the end of the text. -/
def offsetOf (significant : Array Token) (textEnd index : Nat) : Nat :=
  match significant[index]? with
  | some token => token.start
  | none => textEnd

/-- A parse that is being recorded. -/
structure Recorder where
  /-- The significant tokens of the text. -/
  tokens : Array Token
  /-- The length of the text. -/
  textEnd : Nat
  /-- How many significant tokens have been passed. -/
  index : Nat
  events : List Event
  markers : List MarkerState
  /-- The markers that are open, innermost first. -/
  openMarkers : List Nat
deriving Repr, Inhabited

namespace Recorder

/-- Nothing recorded yet. -/
def ofText (text : String) : Recorder :=
  ⟨(Token.significant (Token.tokenize text)).toArray, text.utf8ByteSize, 0, [], [], []⟩

/-- The kind of the token that is `n` tokens ahead, unless the text ends before it. -/
def nth (p : Recorder) (n : Nat) : Option TokenKind :=
  p.tokens[p.index + n]?.map (·.kind)

/-- The kind of the next token. -/
def current (p : Recorder) : Option TokenKind :=
  p.nth 0

/-- Whether the token that is `n` tokens ahead is of a kind. -/
def nthAt (p : Recorder) (n : Nat) (kind : TokenKind) : Bool :=
  p.nth n == some kind

/-- Whether the next token is of a kind. -/
def isAt (p : Recorder) (kind : TokenKind) : Bool :=
  p.nthAt 0 kind

/-- Whether no token is left. -/
def isAtEnd (p : Recorder) : Bool :=
  p.current.isNone

/-- Whether each token begins where the one before it ends. -/
def touching : List Token → Bool
  | token :: next :: rest => token.stop == next.start && touching (next :: rest)
  | _ => true

/-- Whether the tokens ahead are of the given kinds, with nothing between them. -/
def isAtComposite (p : Recorder) (kinds : List TokenKind) : Bool :=
  let ahead := (p.tokens.toList.drop p.index).take kinds.length
  ahead.map (·.kind) == kinds && touching ahead

/-- The offset of the next token, or of the end of the text. -/
def offset (p : Recorder) : Nat :=
  offsetOf p.tokens p.textEnd p.index

/-- Records an event. -/
def record (p : Recorder) (event : Event) : Recorder :=
  { p with events := p.events ++ [event] }

/-- Passes the next token, if there is one. -/
def bump (p : Recorder) : Recorder :=
  match p.current with
  | some kind => { p.record (.token kind) with index := p.index + 1 }
  | none => p

/-- Passes tokens, as many as there are. -/
def bumpMany (p : Recorder) (n : Nat) : Recorder :=
  (min n (p.tokens.size - p.index)).repeat bump p

/-- Passes the next token if it is of a kind, and says whether it was. -/
def eat (p : Recorder) (kind : TokenKind) : Bool × Recorder :=
  if p.isAt kind then (true, p.bump) else (false, p)

/-- Records an error about the next token. -/
def report (p : Recorder) (kind : ErrorKind) : Recorder :=
  p.record (.error ⟨kind, .empty p.offset⟩)

/-- Records that the next token fits nothing. -/
def reportUnexpected (p : Recorder) : Recorder :=
  p.report (.unexpectedToken p.current)

/-- Passes the next token if it is of a kind, or else records an error. -/
def expect (p : Recorder) (kind : TokenKind) (missing : ErrorKind) : Bool × Recorder :=
  if p.isAt kind then (true, p.bump) else (false, p.report missing)

/-- Begins a node. -/
def start (p : Recorder) : Marker × Recorder :=
  (⟨p.markers.length, p.events.length⟩,
    { p.record .placeholder with
      markers := p.markers ++ [.pending]
      openMarkers := p.markers.length :: p.openMarkers })

/-- Closes the innermost open marker. -/
def close (p : Recorder) (id : Nat) (state : MarkerState) : Except Fault Recorder :=
  match p.markers[id]? with
  | none => .error (.noSuchEntry p.markers.length id)
  | some .pending =>
    match p.openMarkers with
    | innermost :: outer =>
      if innermost = id then
        .ok { p with markers := p.markers.set id state, openMarkers := outer }
      else .error (.markerNotInnermost id)
    | [] => .error (.markerNotInnermost id)
  | some _ => .error (.markerClosed id)

/-- Finishes a node. -/
def complete (p : Recorder) (m : Marker) (kind : SyntaxKind) :
    Except Fault (CompletedNode × Recorder) := do
  let p ← p.close m.id .completed
  match p.events[m.position]? with
  | none => .error (.noSuchEntry p.events.length m.position)
  | some .placeholder =>
    let p := { p with events := p.events.set m.position (.start kind none) }
    return (⟨m.position, kind⟩, p.record .finish)
  | some _ => .error .wrongEntry

/-- Gives a node up. What was recorded for it belongs to the node around it. -/
def abandon (p : Recorder) (m : Marker) : Except Fault Recorder := do
  let p ← p.close m.id .abandoned
  if p.events.isEmpty then
    .error .nothingRecorded
  else if m.position + 1 = p.events.length then
    match p.events[m.position]? with
    | some .placeholder => return { p with events := p.events.dropLast }
    | _ => .error .wrongEntry
  else
    return p

/-- Throws a marker away, which must not happen while it is open. -/
def drop (_ : Recorder) (_ : Marker) : Except Fault Recorder :=
  .error .markerDropped

/-- Begins a node around a finished one. -/
def precede (p : Recorder) (node : CompletedNode) : Except Fault (Marker × Recorder) :=
  let (m, p) := p.start
  match p.events[node.position]? with
  | none => .error (.noSuchEntry p.events.length node.position)
  | some (.start kind _) =>
    let link := some (m.position - node.position)
    .ok (m, { p with events := p.events.set node.position (.start kind link) })
  | some _ => .error .wrongEntry

/-- Remembers how much has been recorded. -/
def checkpoint (p : Recorder) : Checkpoint :=
  ⟨p.index, p.events.length, p.markers.length, p.openMarkers.length⟩

/-- Goes back to a checkpoint. As many markers have to be open as then. -/
def rollback (p : Recorder) (k : Checkpoint) : Except Fault Recorder :=
  if p.openMarkers.length = k.openMarkers then
    .ok { p with
      index := k.index
      events := p.events.take k.events
      markers := p.markers.take k.markers }
  else .error .rollbackUnbalanced

/-- Whether an error has been recorded since a checkpoint. -/
def hasErrorsSince (p : Recorder) (k : Checkpoint) : Bool :=
  (p.events.drop k.events).any Event.isError

/-- The record, once all markers are closed. -/
def finish (p : Recorder) : Except Fault (List Event) :=
  if p.openMarkers.isEmpty then .ok p.events else .error .markerLeftOpen

end Recorder

end PatternSyntax
