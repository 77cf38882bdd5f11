import PatternSyntax.Parser.Type
import PatternSyntax.Token.Set

/-!
What stands before a declaration.
-/

namespace PatternSyntax.Procedure

/-- The value of a parameter of an at-sign declaration. -/
def annotValue (q : Procedures) : Procedure Unit := do
  if ← isAt .atSign then
    let _ ← q.annot
  else if ← isAt .openBrace then
    let _ ← q.arrayInitializer
  else
    orReport .expectedExpression q.expression

/-- A parameter, with or without its name, and whether another one follows. -/
def annotParameterTurn (q : Procedures) : Procedure Bool := do
  if (← isAt .ident) && (← isAhead 1 .assign) then
    let _ ← marked fun pair => do
      bump
      bump
      annotValue q
      complete pair .nameValuePair
  else
    annotValue q
  eat .comma

/-- Parameters between parentheses. The next token is `(`. -/
def annotParameters (q : Procedures) : Procedure CompletedNode :=
  marked fun m => do
    bump
    unless ← isAt .closeParen do
      repeatWhile (annotParameterTurn q)
    expect .closeParen .expectedRParen
    complete m .annotParameterList

/-- An at sign, a name, and maybe parameters. The next token is `@`. -/
def annot (q : Procedures) : Procedure CompletedNode :=
  marked fun m => do
    bump
    if ← isAt .ident then
      let _ ← codeReference q false false
    else
      report .expectedIdentifier
    if ← isAt .openParen then
      let _ ← annotParameters q
    complete m .annot

/-- A modifier of the given kinds, or an at-sign declaration. -/
def modifierTurn (q : Procedures) (allowed : TokenSet) : Procedure Bool := do
  match ← next with
  | none => return false
  | some kind =>
    if allowed.contains kind then
      bump
      return true
    else if kind == .atSign && (← isAhead 1 .ident) then
      let _ ← q.annot
      return true
    else
      return false

/-- All modifiers of the given kinds, and all at-sign declarations between them. There is a node
for them even if there are none. -/
def modifierList (q : Procedures) (allowed : TokenSet) : Procedure CompletedNode :=
  marked fun m => do
    repeatWhile (modifierTurn q allowed)
    complete m .modifierList

end PatternSyntax.Procedure
