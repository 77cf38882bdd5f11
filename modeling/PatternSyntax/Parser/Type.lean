import PatternSyntax.Parser.Procedures

/-!
Types and the names they are made of.
-/

namespace PatternSyntax.Procedure

/-- A type argument, and whether another one follows. Without one there is an error, and the last
argument is missing. -/
def argumentTurn (q : Procedures) : Procedure (ForInStep Bool) := do
  if (← q.type .argument).isNone then
    report .expectedType
    return .done false
  else if ← eat .comma then
    return .yield true
  else
    return .done true

/-- Type arguments between angle brackets, or the diamond `<>`. The next token is `<`. -/
def typeArguments (q : Procedures) : Procedure CompletedNode :=
  marked fun m => do
    bump
    unless ← eat .gt do
      let whole ← iterate (fun _ => argumentTurn q) true
      if whole then
        expect .gt .expectedGt
      else
        let _ ← eat .gt
    complete m .referenceParameterList

/-- Type arguments where they are allowed and begin. -/
def optionalTypeArguments (q : Procedures) (allowed : Bool) : Procedure Unit := do
  if allowed && (← isAt .lt) then
    let _ ← typeArguments q

/-- A dot behind a name, and the name behind the dot. -/
def referenceTurn (q : Procedures) (eatLastDot arguments : Bool) (reference : CompletedNode) :
    Procedure (ForInStep CompletedNode) := do
  if ← isAt .dot then
    if ← isAhead 1 .ident then
      return .yield (← preceding reference fun m => do
        bump
        bump
        optionalTypeArguments q arguments
        complete m .javaCodeReference)
    else if eatLastDot then
      return .done (← preceding reference fun m => do
        bump
        report .expectedIdentifier
        complete m .javaCodeReference)
    else
      return .done reference
  else
    return .done reference

/-- A name of identifiers around dots. Each dot makes a node around what comes before it. The next
token is the first identifier. -/
def codeReference (q : Procedures) (eatLastDot arguments : Bool) : Procedure CompletedNode := do
  let first ← marked fun m => do
    bump
    optionalTypeArguments q arguments
    complete m .javaCodeReference
  iterate (referenceTurn q eatLastDot arguments) first

/-- A wildcard with its bound, in the node of the type that was begun for it. The next token is
`?`. -/
def wildcard (q : Procedures) (m : Marker) : Procedure CompletedNode := do
  bump
  if (← isAt .extendsKw) || (← isAt .superKw) then
    bump
    orReport .expectedType (q.type .plain)
  complete m .type

/-- A dimension of an array type. -/
def arrayTurn (element : CompletedNode) : Procedure (ForInStep CompletedNode) := do
  if (← isAt .openBracket) && (← isAhead 1 .closeBracket) then
    return .yield (← preceding element fun m => do
      bump
      bump
      complete m .type)
  else
    return .done element

/-- The dimensions of an array type, and the dots of a variable number of arguments. -/
def typeSuffix (flags : TypeFlags) (base : CompletedNode) : Procedure CompletedNode := do
  let array ← iterate arrayTurn base
  if flags.ellipsis && (← isAt .ellipsis) then
    preceding array fun m => do
      bump
      complete m .type
  else
    return array

/-- An at-sign declaration, if one lies ahead. -/
def annotTurn (q : Procedures) : Procedure Bool := do
  if (← isAt .atSign) && (← isAhead 1 .ident) then
    let _ ← q.annot
    return true
  else
    return false

/-- A type. Where none begins, all is taken back. -/
def type (q : Procedures) (flags : TypeFlags) : Procedure (Option CompletedNode) := do
  let before ← checkpoint
  marked fun m => do
    repeatWhile (annotTurn q)
    if (← next).any TokenKind.isPrimitiveType then
      bump
      return some (← typeSuffix flags (← complete m .type))
    else if ← isAt .ident then
      let _ ← codeReference q flags.eatLastDot true
      return some (← typeSuffix flags (← complete m .type))
    else if flags.wildcard && (← isAt .question) then
      return some (← wildcard q m)
    else
      abandon m
      rollback before
      return none

end PatternSyntax.Procedure
