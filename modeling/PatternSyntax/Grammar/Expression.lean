import PatternSyntax.Grammar.Operator
import PatternSyntax.Grammar.Pattern

/-!
Expressions, from primary ones to those with a condition.
-/

namespace PatternSyntax.Grammar

/-- A token of a block, and how many braces are open behind it besides the first one. -/
def blockTurn (depth : Nat) : Grammar (ForInStep Nat) := do
  match ← next with
  | none =>
    report .expectedRBrace
    return .done depth
  | some .openBrace =>
    bump
    return .yield (depth + 1)
  | some .closeBrace =>
    bump
    match depth with
    | 0 => return .done 0
    | depth + 1 => return .yield depth
  | some _ =>
    bump
    return .yield depth

/-- A block of statements, which are not parsed: all tokens up to the matching brace. The next
token is `{`. -/
def codeBlock : Grammar Outline :=
  node .codeBlock do
    bump
    let _ ← iterate blockTurn 0

/-- Whether, behind an opening parenthesis and `depth` more of them, the parenthesis that closes
the first one has an arrow behind it. -/
def arrowFollows (depth : Nat) : List Terminal → Bool
  | [] => false
  | terminal :: rest =>
    match terminal.kind, depth with
    | .openParen, depth => arrowFollows (depth + 1) rest
    | .closeParen, 0 => rest.head?.any (·.kind == .arrow)
    | .closeParen, depth + 1 => arrowFollows depth rest
    | _, depth => arrowFollows depth rest

/-- Whether a lambda expression begins here. -/
def isLambda : List Terminal → Bool
  | ⟨.ident, _⟩ :: next :: _ => next.kind == .arrow
  | ⟨.openParen, _⟩ :: rest => arrowFollows 0 rest
  | _ => false

/-- A parameter of a lambda expression: a name, or a declaration. -/
def lambdaParameter (r : Rules) : Grammar Outline :=
  node .parameter do
    if (← isAt .ident) && ((← isAhead 1 .comma) || (← isAhead 1 .closeParen)) then
      bump
    else
      put (← modifierList r .variableModifiers)
      orReport .expectedType (r.type .parameter)
      expect .ident .expectedIdentifier

/-- A parameter, and whether another one follows. -/
def lambdaParameterTurn (r : Rules) : Grammar Bool := do
  put (← lambdaParameter r)
  eat .comma

/-- A name, or parameters between parentheses. -/
def lambdaParameterRow (r : Rules) : Grammar Unit := do
  if ← isAt .ident then
    put (← node .parameter bump)
  else
    bump
    unless ← isAt .closeParen do
      repeatWhile (lambdaParameterTurn r)
    expect .closeParen .expectedRParen

/-- The parameters of a lambda expression. -/
def lambdaParameters (r : Rules) : Grammar Outline :=
  node .parameterList (lambdaParameterRow r)

/-- The body of a lambda expression: a block or an expression. -/
def lambdaBody (r : Rules) : Grammar Unit := do
  if ← isAt .openBrace then
    put (← codeBlock)
  else
    orReport .expectedExpression r.expression

/-- The arrow of a lambda expression, and its body. -/
def lambdaTail (r : Rules) : Grammar Unit := do
  let _ ← eat .arrow
  lambdaBody r

/-- What a lambda expression holds. -/
def lambdaRow (r : Rules) : Grammar Unit := do
  put (← lambdaParameters r)
  lambdaTail r

/-- A lambda expression. -/
def lambda (r : Rules) : Grammar Outline :=
  node .lambdaExpression (lambdaRow r)

/-- An argument, and whether another one follows. -/
def parameterTurn (r : Rules) : Grammar Bool := do
  match ← r.expression with
  | none =>
    report .expectedExpression
    return false
  | some argument =>
    put argument
    eat .comma

/-- Arguments between parentheses. The next token is `(`. -/
def arguments (r : Rules) : Grammar Outline :=
  node .expressionList do
    bump
    unless ← isAt .closeParen do
      repeatWhile (parameterTurn r)
    expect .closeParen .expectedRParen

/-- A value, and whether another one may follow. -/
def valueTurn (r : Rules) : Grammar Bool := do
  if (← isAt .closeBrace) || (← isAtEnd) then
    return false
  else if ← isAt .openBrace then
    put (← r.arrayInitializer)
    eat .comma
  else
    match ← r.expression with
    | none =>
      report .expectedExpression
      return false
    | some value =>
      put value
      eat .comma

/-- Values between braces, with a comma behind the last one or without. The next token is
`{`. -/
def arrayInitializer (r : Rules) : Grammar Outline :=
  node .arrayInitializerExpression do
    bump
    repeatWhile (valueTurn r)
    expect .closeBrace .expectedRBrace

/-- The end of a dimension of a new array. -/
def dimensionEnd : Grammar Bool := do
  expect .closeBracket .expectedRBracket
  return true

/-- A dimension of a new array, if there is one. -/
def dimensionTurn (r : Rules) : Grammar Bool := do
  if ← eat .openBracket then
    unless ← isAt .closeBracket do
      orReport .expectedExpression r.expression
    dimensionEnd
  else
    return false

/-- The dimensions of a new array, and its values. -/
def newArray (r : Rules) : Grammar Unit := do
  repeatWhile (dimensionTurn r)
  if ← isAt .openBrace then
    put (← r.arrayInitializer)

/-- What follows the type of a new object or array. -/
def newTail (r : Rules) (isPrimitive : Bool) : Grammar Unit := do
  if ← isAt .openBracket then
    newArray r
  else if !isPrimitive && (← isAt .openParen) then
    put (← arguments r)
    if ← isAt .openBrace then
      put (← codeBlock)
  else
    report .expectedLParen

/-- A new object or array. The next token is `new`. -/
def newExpression (r : Rules) : Grammar Outline :=
  node .newExpression do
    bump
    match ← next with
    | none => report .expectedType
    | some kind =>
      if kind.isPrimitiveType then
        put (← node .type bump)
        newTail r true
      else if kind == .ident then
        put (← codeReference r false true)
        newTail r false
      else
        report .expectedType

/-- An expression between parentheses. The next token is `(`. -/
def parenthesized (r : Rules) : Grammar Outline :=
  node .parenthesizedExpression do
    bump
    orReport .expectedExpression r.expression
    expect .closeParen .expectedRParen

/-- What follows the type that a class object is of. -/
def classSelector : Grammar Unit := do
  expect .dot .expectedExpression
  expect .classKw .expectedIdentifier

/-- The class object of a type. -/
def classObject (r : Rules) : Grammar Outline :=
  node .classObjectAccessExpression do
    match ← r.type .plain with
    | some type => put type
    | none => pure ()
    classSelector

/-- An expression that nothing needs to be added to. -/
def operand (r : Rules) : Grammar (Option Outline) := do
  match ← next with
  | none => return none
  | some kind =>
    if kind.isLiteral then
      return some (← node .literalExpression bump)
    else if kind == .ident then
      return some (← node .referenceExpression bump)
    else if kind == .thisKw then
      return some (← node .thisExpression bump)
    else if kind == .superKw then
      return some (← node .superExpression bump)
    else if kind == .openParen then
      return some (← parenthesized r)
    else if kind == .newKw then
      return some (← newExpression r)
    else if kind.isPrimitiveType then
      return some (← classObject r)
    else
      return none

/-- An element of an array. The next token is `[`. -/
def arrayAccess (r : Rules) (subject : Outline) : Grammar Outline :=
  around .arrayAccessExpression subject do
    bump
    orReport .expectedExpression r.expression
    expect .closeBracket .expectedRBracket

/-- What a dot and a word make of an operand. The next tokens are these. -/
def member (kind : NodeKind) (subject : Outline) : Grammar Outline :=
  around kind subject do
    bump
    bump

/-- Members, calls and elements of an operand. Only what is named can be called. -/
def selectorTurn (r : Rules) (subject : Outline) : Grammar (ForInStep Outline) := do
  if ← isAt .dot then
    if ← isAhead 1 .classKw then
      return .yield (← member .classObjectAccessExpression subject)
    else if ← isAhead 1 .ident then
      return .yield (← member .referenceExpression subject)
    else
      return .done (← around .referenceExpression subject do
        bump
        report .expectedIdentifier)
  else if subject.top? == some .referenceExpression && (← isAt .openParen) then
    return .yield (← around .methodCallExpression subject do
      put (← arguments r))
  else if ← isAt .openBracket then
    return .yield (← arrayAccess r subject)
  else
    return .done subject

/-- A lambda expression, or an operand with its selectors. -/
def primary (r : Rules) (arrow : ArrowRole) : Grammar (Option Outline) := do
  if arrow == .lambda && isLambda (← upcoming) then
    return some (← lambda r)
  else
    grow (operand r) (selectorTurn r)

/-- An operator behind an operand. -/
def postfixTurn (subject : Outline) : Grammar (ForInStep Outline) := do
  if (← isAt .plusPlus) || (← isAt .minusMinus) then
    return .yield (← around .postfixExpression subject bump)
  else
    return .done subject

/-- A primary expression with the operators behind it. -/
def postfixOperand (r : Rules) (arrow : ArrowRole) : Grammar (Option Outline) :=
  grow (primary r arrow) postfixTurn

/-- A type, and whether an operand to cast to it follows. -/
def castTarget (r : Rules) (isPrimitive : Bool) : Grammar Bool := do
  match ← r.type .plain with
  | none => return false
  | some type =>
    put type
    return (← isAt .closeParen) && !type.hasError &&
      (← ahead 1).any (TokenKind.startsCastOperand isPrimitive)

/-- An opening parenthesis and a type, and whether they are the beginning of a cast. -/
def castType (r : Rules) : Grammar Bool := do
  bump
  castTarget r ((← next).any TokenKind.isPrimitiveType)

/-- A type in parentheses before an operand. The next token is `(`. -/
def cast (r : Rules) (arrow : ArrowRole) : Grammar (Option Outline) :=
  attempt do
    let (isCast, parts) ← capture (castType r)
    if isCast then
      return some (← node .typeCastExpression do
        putAll parts
        bump
        orReport .expectedExpression (r.unary arrow))
    else
      return none

/-- An operand with the operators and casts before it. -/
def unary (r : Rules) (arrow : ArrowRole) : Grammar (Option Outline) := do
  match ← next with
  | none => return none
  | some kind =>
    if kind.isPrefixOperator then
      return some (← node .prefixExpression do
        bump
        orReport .expectedExpression (r.binary BinaryOperator.operandLevel arrow))
    else if kind == .openParen then
      match ← cast r arrow with
      | some outline => return some outline
      | none => postfixOperand r arrow
    else
      postfixOperand r arrow

/-- The right side of `instanceof`. -/
def instanceofOperand (r : Rules) : Grammar Unit := do
  if ← isPattern r then
    put (← primaryPattern r)
  else
    orReport .expectedType (r.type .plain)

/-- The operator at the front and its right operand, and whether there was one. -/
def rightOperand (r : Rules) (arrow : ArrowRole) (operator : BinaryOperator) : Grammar Bool := do
  bumpMany operator.width
  match ← r.binary (operator.level + 1) arrow with
  | some right =>
    put right
    return true
  | none =>
    report .expectedExpression
    return false

/-- An operator behind its left operand, and its right operand. -/
def operatorTurn (r : Rules) (level : Nat) (arrow : ArrowRole) (left : Outline)
    (operator : BinaryOperator) : Grammar (ForInStep Outline) := do
  if operator.level < level then
    return .done left
  else if ← isAt .instanceofKw then
    return .yield (← around .instanceofExpression left do
      bump
      instanceofOperand r)
  else
    let (found, parts) ← capture (rightOperand r arrow operator)
    let joined := Outline.around .binaryExpression left parts
    if found then return .yield joined else return .done joined

/-- A binary operator behind its left operand, if there is one, and its right operand. -/
def binaryTurn (r : Rules) (level : Nat) (arrow : ArrowRole) (left : Outline) :
    Grammar (ForInStep Outline) := do
  match BinaryOperator.ofTerminals? (← upcoming) with
  | none => return .done left
  | some operator => operatorTurn r level arrow left operator

/-- Operands joined by binary operators of at least the given level. Operators of one level are
joined from the left. -/
def binary (r : Rules) (level : Nat) (arrow : ArrowRole) : Grammar (Option Outline) :=
  grow (r.unary arrow) (binaryTurn r level arrow)

/-- The second of the two expressions that a condition decides between. -/
def alternative (r : Rules) (arrow : ArrowRole) : Grammar Unit := do
  expect .colon .expectedColon
  orReport .expectedExpression (r.conditional arrow)

/-- An expression that may have a condition. -/
def conditional (r : Rules) (arrow : ArrowRole) : Grammar (Option Outline) := do
  match ← r.binary 0 arrow with
  | none => return none
  | some condition =>
    if ← isAt .question then
      return some (← around .conditionalExpression condition do
        bump
        orReport .expectedExpression r.expression
        alternative r arrow)
    else
      return some condition

end PatternSyntax.Grammar
