import PatternSyntax.Json.Basic
import PatternSyntax.Recording.Replay

/-!
The result of a parse as a document.
-/

namespace PatternSyntax

namespace Tree

/-- What the document says of every element. -/
def placeFields (kind : SyntaxKind) (start stop : Nat) : List (String × Json) :=
  [("kind", .string kind.name), ("start", .number start), ("end", .number stop)]

mutual

/-- An element that begins at `start`. Only tokens have a text, and only elements that hold others
have children. -/
def toJsonFrom (start : Nat) : Tree → Json
  | leaf kind text =>
    .object (placeFields (.token kind) start (start + text.utf8ByteSize) ++
      [("text", .string text)])
  | node kind children =>
    .object (placeFields kind start (start + forestWidth children) ++
      match forestToJsonFrom start children with
      | [] => []
      | items => [("children", .array items)])

/-- A row of elements, the first of which begins at `start`. -/
def forestToJsonFrom (start : Nat) : List Tree → List Json
  | [] => []
  | tree :: rest => toJsonFrom start tree :: forestToJsonFrom (start + tree.width) rest

end

end Tree

/-- An error: what it says, and where. -/
def SyntaxError.toJson (error : SyntaxError) : Json :=
  .object
    [("message", .string error.kind.message), ("start", .number error.span.start),
      ("end", .number error.span.stop)]

/-- The tree and the errors of a parse. -/
def Parse.toJson (parse : Parse) : Json :=
  .object
    [("tree", parse.tree.toJsonFrom 0),
      ("errors", .array (parse.errors.map SyntaxError.toJson))]

end PatternSyntax
