import PatternSyntax.Parse

/-!
Driving a recorder step by step. Handles are numbered in the order in which the steps make them,
separately for markers, finished nodes and checkpoints.
-/

namespace PatternSyntax

/-- The rules that can be applied at the next token. -/
inductive RuleName where
  | pattern
  | primaryPattern
  | modifierList (allowed : TokenSet)
  | annot
  | type (flags : TypeFlags)
  | codeReference (eatLastDot arguments : Bool)
  | expression
  | conditional (arrow : ArrowRole)
  | conditionalAnd (arrow : ArrowRole)
  | arrayInitializer
  | switchLabel
deriving DecidableEq, Repr

namespace RuleName

/-- The procedure that applies a rule. -/
def procedure (name : RuleName) (q : Procedures) : Procedure (Option CompletedNode) :=
  match name with
  | pattern => return some (← q.pattern)
  | primaryPattern => return some (← Procedure.primaryPattern q)
  | modifierList allowed => return some (← Procedure.modifierList q allowed)
  | annot => return some (← q.annot)
  | type flags => q.type flags
  | codeReference eatLastDot arguments =>
    return some (← Procedure.codeReference q eatLastDot arguments)
  | expression => q.expression
  | conditional arrow => q.conditional arrow
  | conditionalAnd arrow => q.binary Procedure.guardPower arrow
  | arrayInitializer => return some (← q.arrayInitializer)
  | switchLabel => Procedure.switchLabel q

/-- Applies a rule. -/
def run (name : RuleName) : Procedure (Option CompletedNode) :=
  Procedure.deepEnough name.procedure

end RuleName

/-- A step of a session. Handles are given by their numbers. -/
inductive Step where
  | start
  | complete (marker : Nat) (kind : SyntaxKind)
  | abandon (marker : Nat)
  | drop (marker : Nat)
  | precede (node : Nat)
  | checkpoint
  | rollback (checkpoint : Nat)
  | hasErrorsSince (checkpoint : Nat)
  | nth (n : Nat)
  | nthAt (n : Nat) (kind : TokenKind)
  | isAtComposite (kinds : List TokenKind)
  | isAtEnd
  | bumpMany (n : Nat)
  | reportUnexpected
  | eat (kind : TokenKind)
  | expect (kind : TokenKind) (missing : ErrorKind)
  | report (kind : ErrorKind)
  | isPattern
  | apply (rule : RuleName)
deriving DecidableEq, Repr

/-- The answer to a step. -/
inductive Answer where
  | nothing
  | handle (number : Nat)
  | node (number : Nat) (kind : SyntaxKind)
  | truth (value : Bool)
  | token (kind : Option TokenKind)
deriving DecidableEq, Repr

/-- Why a session stopped at a step. -/
inductive Refusal where
  /-- There is no such handle, or it has been used up. -/
  | unknownHandle
  | fault (fault : Fault)
deriving DecidableEq, Repr

/-- A recorder with the handles made so far. A marker that was closed or dropped is used up. -/
structure Session where
  recorder : Recorder
  markers : Array (Option Marker)
  nodes : Array CompletedNode
  checkpoints : Array Checkpoint
deriving Repr, Inhabited

namespace Session

/-- No steps taken yet. -/
def ofText (text : String) : Session :=
  ⟨.ofText text, #[], #[], #[]⟩

/-- What a handle stands for. -/
def find {α : Type} (handle : Option α) : Except Refusal α :=
  match handle with
  | some value => .ok value
  | none => .error .unknownHandle

/-- The outcome of an operation of the recorder. -/
def lift {α : Type} (outcome : Except Fault α) : Except Refusal α :=
  outcome.mapError .fault

/-- Takes a marker from its handle. -/
def takeMarker (s : Session) (handle : Nat) : Except Refusal (Marker × Session) := do
  let m ← find s.markers[handle]?.join
  return (m, { s with markers := s.markers.modify handle fun _ => none })

/-- Makes a handle for a marker. -/
def giveMarker (s : Session) (m : Marker) : Answer × Session :=
  (.handle s.markers.size, { s with markers := s.markers.push (some m) })

/-- Makes a handle for a finished node. -/
def giveNode (s : Session) (node : CompletedNode) : Answer × Session :=
  (.node s.nodes.size node.kind, { s with nodes := s.nodes.push node })

/-- Takes a step. -/
def step (s : Session) : Step → Except Refusal (Answer × Session)
  | .start =>
    let (m, p) := s.recorder.start
    return { s with recorder := p }.giveMarker m
  | .complete marker kind => do
    let (m, s) ← s.takeMarker marker
    let (node, p) ← lift (s.recorder.complete m kind)
    return { s with recorder := p }.giveNode node
  | .abandon marker => do
    let (m, s) ← s.takeMarker marker
    let p ← lift (s.recorder.abandon m)
    return (.nothing, { s with recorder := p })
  | .drop marker => do
    let (m, s) ← s.takeMarker marker
    let p ← lift (s.recorder.drop m)
    return (.nothing, { s with recorder := p })
  | .precede node => do
    let node ← find s.nodes[node]?
    let (m, p) ← lift (s.recorder.precede node)
    return { s with recorder := p }.giveMarker m
  | .checkpoint =>
    return (.handle s.checkpoints.size,
      { s with checkpoints := s.checkpoints.push s.recorder.checkpoint })
  | .rollback checkpoint => do
    let k ← find s.checkpoints[checkpoint]?
    let p ← lift (s.recorder.rollback k)
    return (.nothing, { s with recorder := p })
  | .hasErrorsSince checkpoint => do
    let k ← find s.checkpoints[checkpoint]?
    return (.truth (s.recorder.hasErrorsSince k), s)
  | .nth n => return (.token (s.recorder.nth n), s)
  | .nthAt n kind => return (.truth (s.recorder.nthAt n kind), s)
  | .isAtComposite kinds => return (.truth (s.recorder.isAtComposite kinds), s)
  | .isAtEnd => return (.truth s.recorder.isAtEnd, s)
  | .bumpMany n => return (.nothing, { s with recorder := s.recorder.bumpMany n })
  | .reportUnexpected => return (.nothing, { s with recorder := s.recorder.reportUnexpected })
  | .eat kind =>
    let (found, p) := s.recorder.eat kind
    return (.truth found, { s with recorder := p })
  | .expect kind missing =>
    let (found, p) := s.recorder.expect kind missing
    return (.truth found, { s with recorder := p })
  | .report kind => return (.nothing, { s with recorder := s.recorder.report kind })
  | .isPattern => do
    let (answer, p) ← lift (Procedure.deepEnough Procedure.isPattern s.recorder)
    return (.truth answer, { s with recorder := p })
  | .apply name => do
    let (found, p) ← lift (name.run s.recorder)
    let s := { s with recorder := p }
    match found with
    | some node => return s.giveNode node
    | none => return (.nothing, s)

/-- Takes steps as long as none is refused. Answers with what each one led to: its answer and how
much was recorded then, or why it was refused; and with the session behind the last step. -/
def run (s : Session) : List Step → List (Except Refusal (Answer × Checkpoint)) × Option Session
  | [] => ([], some s)
  | first :: rest =>
    match s.step first with
    | .error refusal => ([.error refusal], none)
    | .ok (answer, s) =>
      let (outcomes, last) := s.run rest
      (.ok (answer, s.recorder.checkpoint) :: outcomes, last)

/-- The tree of what was recorded over a text. -/
def finish (s : Session) (text : String) : Except Fault Parse := do
  Parse.ofEvents (Token.tokenize text) (← s.recorder.finish)

end Session

end PatternSyntax
