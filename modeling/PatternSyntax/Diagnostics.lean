import PatternSyntax.Recording.Replay
import PatternSyntax.Text.Join
import PatternSyntax.Text.Position

/-!
The errors of a parse, for people.
-/

namespace PatternSyntax

/-- One error: its line and column in a text, and what it says. -/
def SyntaxError.diagnostic (text : String) (error : SyntaxError) : String :=
  (Text.Position.ofOffset text error.span.start).display ++ ": " ++ error.kind.message

/-- All errors of a parse, a line for each. -/
def Parse.diagnostics (parse : Parse) : String :=
  Text.join "\n" (parse.errors.map (SyntaxError.diagnostic parse.tree.text))

end PatternSyntax
