import PatternSyntax.Grammar.Rules

/-!
Types and the names they are made of.
-/

namespace PatternSyntax.Grammar

/-- A type argument, and whether another one follows. Without one there is an error, and the last
argument is missing. -/
def argumentTurn (r : Rules) (_ : Bool) : Grammar (ForInStep Bool) := do
  match ← r.type .argument with
  | none =>
    report .expectedType
    return .done false
  | some argument =>
    put argument
    if ← eat .comma then return .yield true else return .done true

/-- Type arguments between angle brackets, or the diamond `<>`. The next token is `<`. -/
def typeArguments (r : Rules) : Grammar Outline :=
  node .referenceParameterList do
    bump
    unless ← eat .gt do
      let complete ← iterate (argumentTurn r) true
      if complete then
        expect .gt .expectedGt
      else
        let _ ← eat .gt

/-- Type arguments where they are allowed and begin. -/
def optionalTypeArguments (r : Rules) (allowed : Bool) : Grammar Unit := do
  if allowed && (← isAt .lt) then
    put (← typeArguments r)

/-- The first identifier of a name. -/
def referenceHead (r : Rules) (arguments : Bool) : Grammar Outline :=
  node .javaCodeReference do
    bump
    optionalTypeArguments r arguments

/-- A dot behind a name, and the name behind the dot. -/
def referenceTurn (r : Rules) (eatLastDot arguments : Bool) (reference : Outline) :
    Grammar (ForInStep Outline) := do
  if ← isAt .dot then
    if ← isAhead 1 .ident then
      return .yield (← around .javaCodeReference reference do
        bump
        bump
        optionalTypeArguments r arguments)
    else if eatLastDot then
      return .done (← around .javaCodeReference reference do
        bump
        report .expectedIdentifier)
    else
      return .done reference
  else
    return .done reference

/-- A name of identifiers around dots. Each dot makes a node around what comes before it. The next
token is the first identifier. -/
def codeReference (r : Rules) (eatLastDot arguments : Bool) : Grammar Outline := do
  let first ← referenceHead r arguments
  iterate (referenceTurn r eatLastDot arguments) first

/-- How a type begins. -/
inductive TypeForm where
  | missing
  | wildcard
  | named
deriving DecidableEq, Repr

/-- A wildcard with its bound. The next token is `?`. -/
def wildcard (r : Rules) : Grammar Unit := do
  bump
  if (← isAt .extendsKw) || (← isAt .superKw) then
    bump
    orReport .expectedType (r.type .plain)

/-- The first part of a type, behind its modifiers. -/
def typeHead (r : Rules) (flags : TypeFlags) : Grammar TypeForm := do
  match ← next with
  | none => return .missing
  | some kind =>
    if kind.isPrimitiveType then
      bump
      return .named
    else if kind == .ident then
      put (← codeReference r flags.eatLastDot true)
      return .named
    else if flags.wildcard && kind == .question then
      wildcard r
      return .wildcard
    else
      return .missing

/-- A dimension of an array type. -/
def arrayTurn (element : Outline) : Grammar (ForInStep Outline) := do
  if (← isAt .openBracket) && (← isAhead 1 .closeBracket) then
    return .yield (← around .type element do
      bump
      bump)
  else
    return .done element

/-- The dimensions of an array type, and the dots of a variable number of arguments. -/
def typeSuffix (flags : TypeFlags) (base : Outline) : Grammar Outline := do
  let array ← iterate arrayTurn base
  if flags.ellipsis && (← isAt .ellipsis) then
    around .type array bump
  else
    return array

/-- An at-sign declaration, if one lies ahead. -/
def annotTurn (r : Rules) : Grammar Bool := do
  if (← isAt .atSign) && (← isAhead 1 .ident) then
    put (← r.annot)
    return true
  else
    return false

/-- A type up to its dimensions. -/
def typeBase (r : Rules) (flags : TypeFlags) : Grammar TypeForm := do
  repeatWhile (annotTurn r)
  typeHead r flags

/-- A type. -/
def type (r : Rules) (flags : TypeFlags) : Grammar (Option Outline) :=
  attempt do
    let (form, parts) ← capture (typeBase r flags)
    match form with
    | .missing => return none
    | .wildcard => return some (.node .type parts)
    | .named => return some (← typeSuffix flags (.node .type parts))

end PatternSyntax.Grammar
