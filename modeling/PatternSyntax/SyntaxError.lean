import PatternSyntax.Text.Span
import PatternSyntax.Token.Kind

/-!
What can be wrong with a text, and how it is said.
-/

namespace PatternSyntax

/-- What the grammar missed. -/
inductive ErrorKind where
  | expectedExpression | expectedComma | expectedPattern | expectedRParen | expectedLParen
  | expectedIdentifier | expectedType | expectedGt | expectedRBracket | expectedColon
  | expectedRBrace | expectedColonOrArrow
  /-- A token, or the end of the text, that nothing can begin with. -/
  | unexpectedToken (found : Option TokenKind)
deriving DecidableEq, Repr, Inhabited

namespace ErrorKind

/-- The text of an error. -/
def message : ErrorKind → String
  | expectedExpression => "expected expression"
  | expectedComma => "expected comma"
  | expectedPattern => "expected pattern"
  | expectedRParen => "expected closing parenthesis"
  | expectedLParen => "expected opening parenthesis"
  | expectedIdentifier => "expected identifier"
  | expectedType => "expected type"
  | expectedGt => "expected '>'"
  | expectedRBracket => "expected ']'"
  | expectedColon => "expected ':'"
  | expectedRBrace => "expected '\x7d'"
  | expectedColonOrArrow => "expected ':' or '->'"
  | unexpectedToken none => "unexpected token (end of input)"
  | unexpectedToken (some kind) => "unexpected token (" ++ kind.display ++ ")"

end ErrorKind

/-- An error and the stretch of text it is about. -/
structure SyntaxError where
  kind : ErrorKind
  span : Text.Span
deriving DecidableEq, Repr, Inhabited

namespace SyntaxError

/-- The error with its place. -/
def display (error : SyntaxError) : String :=
  error.kind.message ++ " " ++ error.span.display

end SyntaxError

end PatternSyntax
