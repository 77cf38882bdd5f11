import PatternSyntax.Recording.Event
import PatternSyntax.Tree.Basic

/-!
From recorded events back to a tree, with the blanks and comments that the events do not mention.
First the links are resolved: each node is then opened where the node that it wraps is opened.
Then the tree is built from left to right.
-/

namespace PatternSyntax

/-- A step of building a tree. -/
inductive BuildStep where
  /-- Opens nodes, each inside the one before it. -/
  | openAll (kinds : List SyntaxKind)
  | close
  | token (kind : TokenKind)
  | error (error : SyntaxError)
deriving Repr

namespace Event

/-- Follows the links from a start event whose later events are given. Answers with the kinds of
the nodes that wrap it, innermost first, and with the events in which those starts are blotted
out. An event of another sort ends the chain, and is blotted out too. -/
def followLink : List Event → Option Nat → List SyntaxKind × List Event
  | events, none => ([], events)
  | events, some 0 => ([], events)
  | [], some (_ + 1) => ([], [])
  | .start kind link :: rest, some 1 =>
    let (kinds, rest) := followLink rest link
    (kind :: kinds, .placeholder :: rest)
  | _ :: rest, some 1 => ([], .placeholder :: rest)
  | event :: rest, some (distance + 2) =>
    let (kinds, rest) := followLink rest (some (distance + 1))
    (kinds, event :: rest)

theorem length_followLink (events : List Event) (link : Option Nat) :
    (followLink events link).2.length = events.length := by
  fun_induction followLink events link <;> simp_all

/-- The building steps of a recording, without links. -/
def resolve : List Event → List BuildStep
  | [] => []
  | .placeholder :: rest => resolve rest
  | .start kind link :: rest =>
    let followed := followLink rest link
    .openAll (followed.1.reverse ++ [kind]) :: resolve followed.2
  | .finish :: rest => .close :: resolve rest
  | .token kind :: rest => .token kind :: resolve rest
  | .error found :: rest => .error found :: resolve rest
termination_by events => events.length
decreasing_by
  all_goals simp [length_followLink]

end Event

/-- A tree under construction, and the tokens that it does not hold yet. Lists of elements have the
newest first. -/
structure Builder where
  /-- The elements of the innermost open node, or those outside of all nodes. -/
  current : List Tree
  /-- The open nodes, innermost first, each with the elements to its left. -/
  outer : List (SyntaxKind × List Tree)
  pending : List Token
  errors : List SyntaxError
deriving Repr

namespace Builder

/-- Nothing built, all tokens to come. -/
def ofTokens (tokens : List Token) : Builder :=
  ⟨[], [], tokens, []⟩

/-- Takes over the tokens at the front that are blanks and comments. -/
def takeTrivia (b : Builder) : Builder :=
  let trivia := b.pending.takeWhile (·.kind.isTrivia)
  { b with
    current := (trivia.map fun token => Tree.leaf token.kind token.text).reverse ++ b.current
    pending := b.pending.dropWhile (·.kind.isTrivia) }

/-- Opens nodes, each inside the one before it. -/
def openAll (b : Builder) (kinds : List SyntaxKind) : Builder :=
  kinds.foldl (fun b kind => { b with current := [], outer := (kind, b.current) :: b.outer }) b

/-- Adds an element to the innermost open node. -/
def add (b : Builder) (tree : Tree) : Builder :=
  { b with current := tree :: b.current }

/-- Blanks and comments go to the node that is open before a node, token or error begins; behind
the last of them they go to the outermost node. -/
def step (b : Builder) : BuildStep → Except Fault Builder
  | .openAll kinds => .ok ((if b.outer.isEmpty then b else b.takeTrivia).openAll kinds)
  | .close =>
    let b := if b.outer.length = 1 then b.takeTrivia else b
    match b.outer with
    | [] => .error .finishWithoutStart
    | (kind, left) :: outer =>
      .ok { b with current := .node kind b.current.reverse :: left, outer := outer }
  | .token kind =>
    let b := b.takeTrivia
    match b.pending with
    | token :: pending =>
      if token.kind = kind then
        .ok ({ b with pending := pending }.add (.leaf token.kind token.text))
      else .error .tokenMismatch
    | [] => .error .tokenMismatch
  | .error found =>
    let b := b.takeTrivia
    .ok ({ b with errors := found :: b.errors }.add (.node (.node .error) []))

/-- The finished tree. Nodes that are still open are dissolved, and then one node has to be left. -/
def root (b : Builder) : Except Fault Tree :=
  match b.current ++ b.outer.flatMap (·.2) with
  | [.node kind children] => .ok (.node kind children)
  | [.leaf _ _] => .error .rootIsToken
  | _ => .error .notOneRoot

end Builder

/-- A tree, and what is wrong with its text. -/
structure Parse where
  tree : Tree
  errors : List SyntaxError
deriving Repr, Inhabited

/-- Builds the tree of a recording over the tokens of a text. -/
def Parse.ofEvents (tokens : List Token) (events : List Event) : Except Fault Parse := do
  let b ← (Event.resolve events).foldlM Builder.step (Builder.ofTokens tokens)
  let tree ← b.root
  return ⟨tree, b.errors.reverse⟩

end PatternSyntax
