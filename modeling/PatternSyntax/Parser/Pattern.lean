import PatternSyntax.Parser.Modifier

/-!
Patterns.
-/

namespace PatternSyntax.Procedure

/-- How tightly the operators of a guard bind at least. -/
def guardPower : Nat :=
  3

/-- Whether a pattern begins here: behind any parentheses there are modifiers and a type, and then
a name or the components of a record. All that is recorded to find out is taken back. -/
def isPattern (q : Procedures) : Procedure Bool := do
  let before ← checkpoint
  repeatWhile (eat .openParen)
  let _ ← modifierList q .variableModifiers
  let type ← q.type .pattern
  let answer := type.isSome && ((← isAt .ident) || (← isAt .openParen))
  rollback before
  return answer

/-- A component of a record, or a token that is none. -/
def component (q : Procedures) (isFirst : Bool) : Procedure (ForInStep Bool) := do
  if ← isAtEnd then
    return .done isFirst
  else if ← isPattern q then
    let _ ← q.pattern
    return .yield false
  else
    report .expectedPattern
    if ← isAt .closeParen then
      return .done isFirst
    else
      bump
      return .yield isFirst

/-- A component of a record behind its comma, and whether only tokens that are none came before. -/
def componentTurn (q : Procedures) (isFirst : Bool) : Procedure (ForInStep Bool) := do
  if ← isAt .closeParen then
    return .done isFirst
  else
    unless isFirst do
      expect .comma .expectedComma
    component q isFirst

/-- The components of a record. What is not a pattern is skipped, one token at a time, with an
error for each. The next token has to be `(`. -/
def recordStructure (q : Procedures) : Procedure CompletedNode :=
  marked fun m => do
    unless ← eat .openParen do
      fail .recordWithoutParen
    let _ ← iterate (componentTurn q) true
    expect .closeParen .expectedRParen
    complete m .recordStructurePattern

/-- A type with a name, which is a variable, or with components and maybe a name. Says whether there
were components. -/
def typeOrRecord (q : Procedures) : Procedure Bool :=
  marked fun declared => do
    let _ ← modifierList q .variableModifiers
    if (← q.type .pattern).isNone then
      fail .patternWithoutType
    let isRecord ← isAt .openParen
    if isRecord then
      let _ ← recordStructure q
    let hasName ← isAt .ident
    if hasName then
      if isRecord then
        let _ ← marked fun name => do
          bump
          complete name .recordPatternVariable
      else
        bump
    if isRecord then
      abandon declared
    else
      unless hasName do
        fail .patternWithoutName
      let _ ← complete declared .patternVariable
    return isRecord

/-- A type with a name, or with components and maybe a name. -/
def typeOrRecordPattern (q : Procedures) : Procedure CompletedNode :=
  marked fun m => do
    let isRecord ← typeOrRecord q
    complete m (if isRecord then .recordPattern else .typeTestPattern)

/-- A pattern that has no guard of its own. -/
def primaryPattern (q : Procedures) : Procedure CompletedNode := do
  if ← isAt .openParen then
    marked fun m => do
      bump
      let _ ← q.pattern
      expect .closeParen .expectedRParen
      complete m .parenthesizedPattern
  else
    typeOrRecordPattern q

/-- A pattern, with or without a guard. -/
def pattern (q : Procedures) : Procedure CompletedNode :=
  marked fun guarded => do
    let primary ← primaryPattern q
    if ← isAt .andAnd then
      bump
      orReport .expectedExpression (q.binary guardPower .terminator)
      complete guarded .guardedPattern
    else
      abandon guarded
      return primary

end PatternSyntax.Procedure
