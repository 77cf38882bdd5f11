import PatternSyntax.SyntaxError
import PatternSyntax.Tree.Kind

/-!
What a parse leaves behind, in the order in which it happened.
-/

namespace PatternSyntax

/-- One step of a recorded parse. -/
inductive Event where
  /-- A node that is not decided yet, or was given up. -/
  | placeholder
  /-- The start of a node. A link leads to the start of a node that was begun later and yet wraps
  this one; it counts the events from here to there. -/
  | start (kind : SyntaxKind) (link : Option Nat)
  /-- The end of the innermost node. -/
  | finish
  /-- The next significant token. -/
  | token (kind : TokenKind)
  /-- An error at the next significant token. -/
  | error (error : SyntaxError)
deriving DecidableEq, Repr, Inhabited

namespace Event

/-- Whether the event is a token. -/
def isToken : Event → Bool
  | token _ => true
  | _ => false

/-- Whether the event is an error. -/
def isError : Event → Bool
  | error _ => true
  | _ => false

end Event

end PatternSyntax
