import PatternSyntax.Grammar.Expression

/-!
Labels of a switch.
-/

namespace PatternSyntax.Grammar

/-- The end of a label. -/
def labelEnd : Grammar Unit := do
  if ← eat .colon then
    return ()
  else if ← eat .arrow then
    return ()
  else
    report .expectedColonOrArrow

/-- An element of a label, and whether there was one. -/
def labelElement (r : Rules) : Grammar Bool := do
  if ← isAt .defaultKw then
    put (← node .defaultCaseLabelElement bump)
    return true
  else if ← isPattern r then
    put (← r.pattern)
    return true
  else
    match ← r.conditional .terminator with
    | some constant =>
      put constant
      return true
    | none => return false

/-- An element, and whether another one follows. -/
def elementTurn (r : Rules) : Grammar Bool := do
  if ← labelElement r then
    eat .comma
  else
    report .expectedExpression
    return false

/-- The elements of a label, around commas. -/
def labelElements (r : Rules) : Grammar Outline :=
  node .caseLabelElementList (repeatWhile (elementTurn r))

/-- A label. Where none begins, the next token is unexpected. -/
def switchLabel (r : Rules) : Grammar (Option Outline) := do
  match ← next with
  | some .defaultKw =>
    return some (← node .switchLabel do
      bump
      labelEnd)
  | some .caseKw =>
    return some (← node .switchLabel do
      bump
      put (← labelElements r)
      labelEnd)
  | _ =>
    put (.loose [])
    reportUnexpected
    return none

end PatternSyntax.Grammar
