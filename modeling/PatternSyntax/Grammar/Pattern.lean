import PatternSyntax.Grammar.Modifier

/-!
Patterns:

```
Pattern         = PrimaryPattern [ "&&" ConditionalAnd ]
PrimaryPattern  = "(" Pattern ")"
                | Modifiers Type RecordStructure [ Identifier ]
                | Modifiers Type Identifier
RecordStructure = "(" [ Pattern { "," Pattern } ] ")"
```
-/

namespace PatternSyntax.Grammar

/-- The level of the operator that a guard is made of. -/
def guardLevel : Nat :=
  2

/-- What is read to see whether a pattern begins here: behind any parentheses there are modifiers
and a type, and then a name or the components of a record. -/
def probe (r : Rules) : Grammar Bool := do
  repeatWhile (eat .openParen)
  put (← modifierList r .variableModifiers)
  match ← r.type .pattern with
  | none => return false
  | some type =>
    put type
    return (← isAt .ident) || (← isAt .openParen)

/-- Whether a pattern begins here. -/
def isPattern (r : Rules) : Grammar Bool :=
  lookahead (probe r)

/-- A component of a record, or a token that is none. -/
def component (r : Rules) (isFirst : Bool) : Grammar (ForInStep Bool) := do
  if ← isAtEnd then
    return .done isFirst
  else if ← isPattern r then
    put (← r.pattern)
    return .yield false
  else
    report .expectedPattern
    if ← isAt .closeParen then
      return .done isFirst
    else
      bump
      return .yield isFirst

/-- A component of a record behind its comma, and whether only tokens that are none came before. -/
def componentTurn (r : Rules) (isFirst : Bool) : Grammar (ForInStep Bool) := do
  if ← isAt .closeParen then
    return .done isFirst
  else
    unless isFirst do
      expect .comma .expectedComma
    component r isFirst

/-- The components of a record. What is not a pattern is skipped, one token at a time, with an
error for each. The next token is `(`. -/
def recordStructure (r : Rules) : Grammar Outline :=
  node .recordStructurePattern do
    bump
    let _ ← iterate (componentTurn r) true
    expect .closeParen .expectedRParen

/-- The name of a record pattern, if it has one. -/
def recordName : Grammar Unit := do
  if ← isAt .ident then
    put (← node .recordPatternVariable bump)

/-- A name behind modifiers and a type, or components and maybe a name. -/
def typedPattern (r : Rules) (modifiers type : Outline) : Grammar Outline := do
  if ← isAt .openParen then
    let (_, parts) ← capture do
      put modifiers
      put type
      put (← recordStructure r)
      recordName
    return .node .recordPattern [.loose parts]
  else if ← isAt .ident then
    let declared ← node .patternVariable do
      put modifiers
      put type
      bump
    return .node .typeTestPattern [declared]
  else
    fail .patternWithoutName

/-- A type with a name, or with components and maybe a name. -/
def typeOrRecordPattern (r : Rules) : Grammar Outline := do
  let modifiers ← modifierList r .variableModifiers
  match ← r.type .pattern with
  | none => fail .patternWithoutType
  | some type => typedPattern r modifiers type

/-- A pattern that has no guard of its own. -/
def primaryPattern (r : Rules) : Grammar Outline := do
  if ← isAt .openParen then
    node .parenthesizedPattern do
      bump
      put (← r.pattern)
      expect .closeParen .expectedRParen
  else
    typeOrRecordPattern r

/-- A pattern, with or without a guard. -/
def pattern (r : Rules) : Grammar Outline := do
  let primary ← primaryPattern r
  if ← isAt .andAnd then
    node .guardedPattern do
      put primary
      bump
      orReport .expectedExpression (r.binary guardLevel .terminator)
  else
    return .loose [primary]

end PatternSyntax.Grammar
