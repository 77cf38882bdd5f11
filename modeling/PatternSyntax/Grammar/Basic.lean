import PatternSyntax.Outline
import PatternSyntax.Token.Basic

/-!
Reading significant tokens and putting down what they make. A grammar rule runs from a cursor; it
puts down outlines, and ends at a later cursor with a value. A rule that answers with an outline
has not put it down: its caller decides where it goes.
-/

namespace PatternSyntax

/-- What the grammar knows of a significant token: its kind, and whether it is a `>` that touches a
following `>` or `=`. Nothing else about the text decides how it is parsed. -/
structure Terminal where
  kind : TokenKind
  glued : Bool
deriving DecidableEq, Repr, Inhabited

namespace Terminal

/-- Whether a token and the next one may be parts of one operator. -/
def isGlued (token next : Token) : Bool :=
  token.kind == .gt && (next.kind == .gt || next.kind == .assign) && token.stop == next.start

/-- What the grammar knows of a row of significant tokens. -/
def ofTokens : List Token → List Terminal
  | [] => []
  | [token] => [⟨token.kind, false⟩]
  | token :: next :: rest => ⟨token.kind, isGlued token next⟩ :: ofTokens (next :: rest)

theorem map_kind_ofTokens (tokens : List Token) :
    (ofTokens tokens).map (·.kind) = tokens.map (·.kind) := by
  fun_induction ofTokens tokens <;> simp_all

end Terminal

/-- A place between significant tokens: how many come before it, and those behind it. -/
structure Cursor where
  index : Nat
  rest : List Terminal
deriving DecidableEq, Repr, Inhabited

/-- What a rule has done. -/
structure Parsed (α : Type) where
  value : α
  /-- What was put down, in order. -/
  parts : List Outline
  /-- The place that was reached. -/
  cursor : Cursor
deriving Inhabited

/-- A grammar rule. -/
def Grammar (α : Type) : Type :=
  Cursor → Except Fault (Parsed α)

namespace Grammar

instance : Monad Grammar where
  pure a := fun c => .ok ⟨a, [], c⟩
  bind g f := fun c =>
    match g c with
    | .error fault => .error fault
    | .ok first =>
      match f first.value first.cursor with
      | .error fault => .error fault
      | .ok second => .ok ⟨second.value, first.parts ++ second.parts, second.cursor⟩

/-- The rule that cannot be applied. -/
def fail {α : Type} (fault : Fault) : Grammar α :=
  fun _ => .error fault

/-- The kind of the token that is `n` tokens ahead, unless the text ends before it. -/
def ahead (n : Nat) : Grammar (Option TokenKind) :=
  fun c => .ok ⟨c.rest[n]?.map (·.kind), [], c⟩

/-- The kind of the next token. -/
def next : Grammar (Option TokenKind) :=
  ahead 0

/-- Whether the token that is `n` tokens ahead is of a kind. -/
def isAhead (n : Nat) (kind : TokenKind) : Grammar Bool :=
  fun c => .ok ⟨c.rest[n]?.map (·.kind) == some kind, [], c⟩

/-- Whether the next token is of a kind. -/
def isAt (kind : TokenKind) : Grammar Bool :=
  isAhead 0 kind

/-- Whether no token is left. -/
def isAtEnd : Grammar Bool :=
  fun c => .ok ⟨c.rest.isEmpty, [], c⟩

/-- All tokens that are left. -/
def upcoming : Grammar (List Terminal) :=
  fun c => .ok ⟨c.rest, [], c⟩

/-- Puts down an outline. -/
def put (part : Outline) : Grammar Unit :=
  fun c => .ok ⟨(), [part], c⟩

/-- Puts down a row of outlines. -/
def putAll (parts : List Outline) : Grammar Unit :=
  fun c => .ok ⟨(), parts, c⟩

/-- Puts down the next token, if there is one. -/
def bump : Grammar Unit :=
  fun c =>
    match c.rest with
    | [] => .ok ⟨(), [], c⟩
    | terminal :: rest => .ok ⟨(), [.token terminal.kind], ⟨c.index + 1, rest⟩⟩

/-- Puts down the next `n` tokens. -/
def bumpMany : Nat → Grammar Unit
  | 0 => pure ()
  | n + 1 => do
    bump
    bumpMany n

/-- Puts down an error about the next token. -/
def report (kind : ErrorKind) : Grammar Unit :=
  fun c => .ok ⟨(), [.error kind c.index], c⟩

/-- Puts down the error that the next token fits nothing. -/
def reportUnexpected : Grammar Unit := do
  report (.unexpectedToken (← next))

/-- Puts down the next token if it is of a kind, and says whether it was. -/
def eat (kind : TokenKind) : Grammar Bool := do
  if ← isAt kind then
    bump
    return true
  else
    return false

/-- Puts down the next token if it is of a kind, or else an error. -/
def expect (kind : TokenKind) (missing : ErrorKind) : Grammar Unit := do
  unless ← eat kind do
    report missing

/-- Puts down what a rule finds, or else an error. -/
def orReport (missing : ErrorKind) (g : Grammar (Option Outline)) : Grammar Unit := do
  match ← g with
  | some outline => put outline
  | none => report missing

/-- Runs a rule and answers with what it would have put down. -/
def capture {α : Type} (g : Grammar α) : Grammar (α × List Outline) :=
  fun c =>
    match g c with
    | .error fault => .error fault
    | .ok done => .ok ⟨(done.value, done.parts), [], done.cursor⟩

/-- The node that holds what a rule puts down. -/
def node (kind : NodeKind) (g : Grammar Unit) : Grammar Outline := do
  let (_, parts) ← capture g
  return .node kind parts

/-- The node that holds a finished one and then what a rule puts down. -/
def around (kind : NodeKind) (first : Outline) (g : Grammar Unit) : Grammar Outline := do
  let (_, parts) ← capture g
  return .around kind first parts

/-- Runs a rule only for its value: nothing is put down, and the cursor stays. -/
def lookahead {α : Type} (g : Grammar α) : Grammar α :=
  fun c =>
    match g c with
    | .error fault => .error fault
    | .ok done => .ok ⟨done.value, [], c⟩

/-- Runs a rule that may find nothing. Then nothing is put down, and the cursor stays. -/
def attempt {α : Type} (g : Grammar (Option α)) : Grammar (Option α) :=
  fun c =>
    match g c with
    | .error fault => .error fault
    | .ok done => if done.value.isSome then .ok done else .ok ⟨none, [], c⟩

/-- Repeats a step at most `limit` times, until it is done. -/
def iterateWithin {σ : Type} (step : σ → Grammar (ForInStep σ)) : Nat → σ → Grammar σ
  | 0, _ => fail .depthExceeded
  | limit + 1, state => do
    match ← step state with
    | .done state => return state
    | .yield state => iterateWithin step limit state

/-- Repeats a step until it is done. A step that is not done has to pass a token, so that there are
at most as many steps as tokens, and one more. -/
def iterate {σ : Type} (step : σ → Grammar (ForInStep σ)) (state : σ) : Grammar σ :=
  fun c => iterateWithin step (c.rest.length + 1) state c

/-- A turn that says itself whether another one follows. -/
def again (g : Grammar Bool) (_ : Unit) : Grammar (ForInStep Unit) := do
  if ← g then return .yield () else return .done ()

/-- Repeats a rule as long as it says so. -/
def repeatWhile (g : Grammar Bool) : Grammar Unit :=
  iterate (again g) ()

/-- What the turns of a loop make of an operand, if there is one. -/
def grown (turn : Outline → Grammar (ForInStep Outline)) :
    Option Outline → Grammar (Option Outline)
  | none => return none
  | some first => do return some (← iterate turn first)

/-- An operand, if there is one, with what the turns of a loop make of it. -/
def grow (g : Grammar (Option Outline)) (turn : Outline → Grammar (ForInStep Outline)) :
    Grammar (Option Outline) := do
  grown turn (← g)

/-- Puts down the next token, if there is one, and says whether there was one. -/
def bumpTurn : Grammar Bool := do
  if ← isAtEnd then
    return false
  else
    bump
    return true

/-- Puts down all tokens that are left. -/
def bumpAll : Grammar Unit :=
  repeatWhile bumpTurn

end Grammar

end PatternSyntax
