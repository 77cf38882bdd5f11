import PatternSyntax.Parser.Depth
import PatternSyntax.Recording.Replay
import PatternSyntax.Subject

/-!
Parsing whole texts.
-/

namespace PatternSyntax

namespace Recorder

/-- Whether an error has been recorded behind the last token. -/
def endsInError (p : Recorder) : Bool :=
  (p.events.reverse.takeWhile fun event => !event.isToken).any Event.isError

end Recorder

namespace Procedure

/-- The one thing that a text should consist of. A text that does not begin with a pattern, and
should, is an error as a whole. -/
def subject (q : Procedures) : Subject → Procedure Unit
  | .pattern => do
    if ← isPattern q then
      let _ ← q.pattern
    else
      let _ ← marked fun m => do
        report .expectedPattern
        bumpAll
        complete m .error
  | .expression => orReport .expectedExpression q.expression
  | .switchLabel => do
    let _ ← switchLabel q

/-- A whole text. The tokens behind its subject are an error, which is only reported if nothing has
been reported there yet. -/
def document (q : Procedures) (s : Subject) : Procedure CompletedNode :=
  marked fun root => do
    subject q s
    unless ← isAtEnd do
      let reported ← look Recorder.endsInError
      let _ ← marked fun m => do
        unless reported do
          reportUnexpected
        bumpAll
        complete m .error
    complete root .root

end Procedure

namespace Parse

/-- Parses a text. -/
def ofText (s : Subject) (text : String) : Except Fault Parse := do
  let (_, p) ← Procedure.deepEnough (fun q => Procedure.document q s) (.ofText text)
  ofEvents (Token.tokenize text) (← p.finish)

end Parse

end PatternSyntax
