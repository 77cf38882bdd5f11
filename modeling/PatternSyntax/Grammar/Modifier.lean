import PatternSyntax.Grammar.Type
import PatternSyntax.Token.Set

/-!
What stands before a declaration.
-/

namespace PatternSyntax.Grammar

/-- The value of a parameter of an at-sign declaration. -/
def annotValue (r : Rules) : Grammar Unit := do
  if ← isAt .atSign then
    put (← r.annot)
  else if ← isAt .openBrace then
    put (← r.arrayInitializer)
  else
    orReport .expectedExpression r.expression

/-- A parameter, with or without its name. -/
def annotParameter (r : Rules) : Grammar Unit := do
  if (← isAt .ident) && (← isAhead 1 .assign) then
    put (← node .nameValuePair do
      bump
      bump
      annotValue r)
  else
    annotValue r

/-- A parameter, and whether another one follows. -/
def annotParameterTurn (r : Rules) : Grammar Bool := do
  annotParameter r
  eat .comma

/-- Parameters between parentheses. The next token is `(`. -/
def annotParameters (r : Rules) : Grammar Outline :=
  node .annotParameterList do
    bump
    unless ← isAt .closeParen do
      repeatWhile (annotParameterTurn r)
    expect .closeParen .expectedRParen

/-- Parameters where they begin. -/
def optionalAnnotParameters (r : Rules) : Grammar Unit := do
  if ← isAt .openParen then
    put (← annotParameters r)

/-- An at sign, a name, and maybe parameters. The next token is `@`. -/
def annot (r : Rules) : Grammar Outline :=
  node .annot do
    bump
    if ← isAt .ident then
      put (← codeReference r false false)
    else
      report .expectedIdentifier
    optionalAnnotParameters r

/-- A modifier of the given kinds, or an at-sign declaration. -/
def modifierTurn (r : Rules) (allowed : TokenSet) : Grammar Bool := do
  match ← next with
  | none => return false
  | some kind =>
    if allowed.contains kind then
      bump
      return true
    else if kind == .atSign && (← isAhead 1 .ident) then
      put (← r.annot)
      return true
    else
      return false

/-- All modifiers of the given kinds, and all at-sign declarations between them. There is a node
for them even if there are none. -/
def modifierList (r : Rules) (allowed : TokenSet) : Grammar Outline :=
  node .modifierList (repeatWhile (modifierTurn r allowed))

end PatternSyntax.Grammar
