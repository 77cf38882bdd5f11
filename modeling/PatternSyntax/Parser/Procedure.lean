import PatternSyntax.Recording.Recorder

/-!
The steps that the parser is made of. A procedure runs on a recorder: it looks at the tokens ahead
and records what it makes of them, with markers and checkpoints. It ends with a value, or in a
fault.
-/

namespace PatternSyntax

/-- A procedure of the parser. -/
def Procedure (α : Type) : Type :=
  Recorder → Except Fault (α × Recorder)

namespace Procedure

variable {α σ : Type}

instance : Monad Procedure where
  pure a := fun p => .ok (a, p)
  bind f h := fun p =>
    match f p with
    | .error fault => .error fault
    | .ok (a, p) => h a p

/-- Ends in a fault. -/
def fail (fault : Fault) : Procedure α :=
  fun _ => .error fault

/-- Looks at the recorder, and leaves it as it is. -/
def look (view : Recorder → α) : Procedure α :=
  fun p => .ok (view p, p)

/-- The kind of the token that is `n` tokens ahead, unless the text ends before it. -/
def ahead (n : Nat) : Procedure (Option TokenKind) :=
  look (·.nth n)

/-- The kind of the next token. -/
def next : Procedure (Option TokenKind) :=
  look Recorder.current

/-- Whether the token that is `n` tokens ahead is of a kind. -/
def isAhead (n : Nat) (kind : TokenKind) : Procedure Bool :=
  look (·.nthAt n kind)

/-- Whether the next token is of a kind. -/
def isAt (kind : TokenKind) : Procedure Bool :=
  look (·.isAt kind)

/-- Whether no token is left. -/
def isAtEnd : Procedure Bool :=
  look Recorder.isAtEnd

/-- Passes the next token, if there is one. -/
def bump : Procedure Unit :=
  fun p => .ok ((), p.bump)

/-- Passes the next `n` tokens. -/
def bumpMany (n : Nat) : Procedure Unit :=
  fun p => .ok ((), p.bumpMany n)

/-- Passes the next token if it is of a kind, and says whether it was. -/
def eat (kind : TokenKind) : Procedure Bool :=
  fun p => .ok (p.eat kind)

/-- Passes the next token if it is of a kind, or else records an error. -/
def expect (kind : TokenKind) (missing : ErrorKind) : Procedure Unit :=
  fun p => .ok ((), (p.expect kind missing).2)

/-- Records an error about the next token. -/
def report (kind : ErrorKind) : Procedure Unit :=
  fun p => .ok ((), p.report kind)

/-- Records that the next token fits nothing. -/
def reportUnexpected : Procedure Unit :=
  fun p => .ok ((), p.reportUnexpected)

/-- Records an error if a procedure finds nothing. -/
def orReport (missing : ErrorKind) (f : Procedure (Option CompletedNode)) : Procedure Unit := do
  if (← f).isNone then
    report missing

/-- Begins a node. -/
def start : Procedure Marker :=
  fun p => .ok p.start

/-- Finishes a node. -/
def complete (m : Marker) (kind : NodeKind) : Procedure CompletedNode :=
  fun p => p.complete m (.node kind)

/-- Gives a node up. -/
def abandon (m : Marker) : Procedure Unit :=
  fun p => (p.abandon m).map fun p => ((), p)

/-- Begins a node around a finished one. -/
def precede (node : CompletedNode) : Procedure Marker :=
  fun p => p.precede node

/-- Throws a marker away. -/
def drop (m : Marker) : Procedure Unit :=
  fun p => (p.drop m).map fun p => ((), p)

/-- Runs the body that a marker lives in. A marker that its body has not closed is thrown away. -/
def owning (m : Marker) (body : Procedure α) : Procedure α := do
  let value ← body
  if ← look (·.markers[m.id]? == some .pending) then
    drop m
  return value

/-- Begins a node for a body, which has to finish it or give it up. -/
def marked (body : Marker → Procedure α) : Procedure α := do
  let m ← start
  owning m (body m)

/-- Begins a node around a finished one for a body, which has to finish the new node. -/
def preceding (node : CompletedNode) (body : Marker → Procedure α) : Procedure α := do
  let m ← precede node
  owning m (body m)

/-- Remembers how much has been recorded. -/
def checkpoint : Procedure Checkpoint :=
  look Recorder.checkpoint

/-- Goes back to a checkpoint. -/
def rollback (k : Checkpoint) : Procedure Unit :=
  fun p => (p.rollback k).map fun p => ((), p)

/-- Whether an error has been recorded since a checkpoint. -/
def hasErrorsSince (k : Checkpoint) : Procedure Bool :=
  look (·.hasErrorsSince k)

/-- Repeats a step at most `limit` times, until it is done. -/
def iterateWithin (step : σ → Procedure (ForInStep σ)) : Nat → σ → Procedure σ
  | 0, _ => fail .depthExceeded
  | limit + 1, state => do
    match ← step state with
    | .done state => return state
    | .yield state => iterateWithin step limit state

/-- Repeats a step until it is done. A step that is not done has to pass a token, so that there are
at most as many steps as tokens, and one more. -/
def iterate (step : σ → Procedure (ForInStep σ)) (state : σ) : Procedure σ :=
  fun p => iterateWithin step (p.tokens.size - p.index + 1) state p

/-- A turn that says itself whether another one follows. -/
def again (f : Procedure Bool) (_ : Unit) : Procedure (ForInStep Unit) := do
  if ← f then return .yield () else return .done ()

/-- Repeats a procedure as long as it says so. -/
def repeatWhile (f : Procedure Bool) : Procedure Unit :=
  iterate (again f) ()

/-- An operand, if there is one, with what the turns of a loop make of it. -/
def grow (f : Procedure (Option CompletedNode))
    (turn : CompletedNode → Procedure (ForInStep CompletedNode)) :
    Procedure (Option CompletedNode) := do
  match ← f with
  | none => return none
  | some first => return some (← iterate turn first)

/-- Passes the next token, if there is one, and says whether there was one. -/
def bumpTurn : Procedure Bool := do
  if ← isAtEnd then
    return false
  else
    bump
    return true

/-- Passes all tokens that are left. -/
def bumpAll : Procedure Unit :=
  repeatWhile bumpTurn

end Procedure

end PatternSyntax
