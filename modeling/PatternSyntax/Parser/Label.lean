import PatternSyntax.Parser.Expression

/-!
Labels of a switch.
-/

namespace PatternSyntax.Procedure

/-- The end of a label. -/
def labelEnd : Procedure Unit := do
  if ← eat .colon then
    return ()
  else if ← eat .arrow then
    return ()
  else
    report .expectedColonOrArrow

/-- An element of a label, and whether there was one. -/
def labelElement (q : Procedures) : Procedure Bool := do
  if ← isAt .defaultKw then
    let _ ← leaf .defaultCaseLabelElement
    return true
  else if ← isPattern q then
    let _ ← q.pattern
    return true
  else
    return (← q.conditional .terminator).isSome

/-- An element, and whether another one follows. -/
def elementTurn (q : Procedures) : Procedure Bool := do
  if ← labelElement q then
    eat .comma
  else
    report .expectedExpression
    return false

/-- A label. Where none begins, the next token is unexpected. -/
def switchLabel (q : Procedures) : Procedure (Option CompletedNode) :=
  marked fun m => do
    if ← eat .defaultKw then
      labelEnd
      return some (← complete m .switchLabel)
    else if ← eat .caseKw then
      let _ ← marked fun elements => do
        repeatWhile (elementTurn q)
        complete elements .caseLabelElementList
      labelEnd
      return some (← complete m .switchLabel)
    else
      abandon m
      reportUnexpected
      return none

end PatternSyntax.Procedure
