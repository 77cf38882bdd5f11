import PatternSyntax.Grammar.Depth
import PatternSyntax.Subject
import PatternSyntax.Token.Scan

/-!
The outline of a whole text.
-/

namespace PatternSyntax

namespace Grammar

/-- All tokens of a text that does not begin with a pattern. -/
def missedPattern : Grammar Outline :=
  node .error do
    report .expectedPattern
    bumpAll

/-- The one thing that a text should consist of. A text that does not begin with a pattern, and
should, is an error as a whole. -/
def subject (r : Rules) : Subject → Grammar Unit
  | .pattern => do
    if ← isPattern r then
      put (← r.pattern)
    else
      put (← missedPattern)
  | .expression => orReport .expectedExpression r.expression
  | .switchLabel => do
    match ← switchLabel r with
    | some label => put label
    | none => pure ()

/-- Whether an error has been put down behind the last token. -/
def endsInError (parts : List Outline) : Bool :=
  ((Outline.eventsAll id parts).reverse.takeWhile fun event => !event.isToken).any Event.isError

/-- All tokens that are left behind what has been put down. They are an error, which is only
reported if nothing has been reported there yet. -/
def leftoverRow (parts : List Outline) : Grammar Unit := do
  unless endsInError parts do
    reportUnexpected
  bumpAll

/-- The tokens behind a subject, if there are any. -/
def documentTail (parts : List Outline) : Grammar Unit := do
  unless ← isAtEnd do
    put (← node .error (leftoverRow parts))

/-- A whole text. -/
def document (r : Rules) (s : Subject) : Grammar Outline :=
  node .root do
    let (_, parts) ← capture (subject r s)
    putAll parts
    documentTail parts

end Grammar

namespace Parse

/-- The outline of a text. -/
def outline (s : Subject) (tokens : List Token) : Except Fault Outline := do
  let terminals := Terminal.ofTokens (Token.significant tokens)
  let done ← Grammar.deepEnough (fun r => Grammar.document r s) ⟨0, terminals⟩
  return done.value

end Parse

end PatternSyntax
