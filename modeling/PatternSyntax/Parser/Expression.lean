import PatternSyntax.Parser.Pattern

/-!
Expressions, from primary ones to those with a condition.
-/

namespace PatternSyntax

/-- How tightly a binary operator binds on its left and on its right, and how many tokens spell
it. -/
structure BindingPower where
  left : Nat
  right : Nat
  width : Nat
deriving DecidableEq, Repr

/-- The binary operator at the next token. Those that begin with `>` are put together from tokens
that touch. -/
def Recorder.bindingPower? (p : Recorder) : Option BindingPower :=
  match p.current with
  | none => none
  | some .gt =>
    if p.isAtComposite [.gt, .gt, .gt] then some ⟨15, 16, 3⟩
    else if p.isAtComposite [.gt, .gt] then some ⟨15, 16, 2⟩
    else if p.isAtComposite [.gt, .assign] then some ⟨13, 14, 2⟩
    else some ⟨13, 14, 1⟩
  | some .orOr => some ⟨1, 2, 1⟩
  | some .andAnd => some ⟨3, 4, 1⟩
  | some .vbar => some ⟨5, 6, 1⟩
  | some .caret => some ⟨7, 8, 1⟩
  | some .ampersand => some ⟨9, 10, 1⟩
  | some .eqEq | some .notEq => some ⟨11, 12, 1⟩
  | some .lt | some .ltEq | some .instanceofKw => some ⟨13, 14, 1⟩
  | some .shl => some ⟨15, 16, 1⟩
  | some .plus | some .minus => some ⟨17, 18, 1⟩
  | some .asterisk | some .slash | some .percent => some ⟨19, 20, 1⟩
  | some _ => none

namespace Procedure

/-- The power with which an operator binds its operand on the right of it. -/
def prefixPower : Nat :=
  21

/-- Passes a token of a block, and says how many braces are open then, or that the last one has been
closed. -/
def blockTurn (depth : Option Nat) : Procedure (ForInStep (Option Nat)) := do
  match ← next with
  | none => return .done depth
  | some .openBrace =>
    bump
    return .yield (depth.map (· + 1))
  | some .closeBrace =>
    bump
    match depth with
    | some 1 => return .done none
    | some (depth + 2) => return .yield (some (depth + 1))
    | _ => fail .countBelowZero
  | some _ =>
    bump
    return .yield depth

/-- A block of statements, which are not parsed: all tokens up to the matching brace. The next
token is `{`. -/
def codeBlock : Procedure CompletedNode :=
  marked fun m => do
    let depth ← iterate blockTurn (some 0)
    if depth.isSome then
      report .expectedRBrace
    complete m .codeBlock

/-- Goes over tokens, `depth` parentheses being open, to the parenthesis that closes the last one,
and says whether an arrow follows it. -/
def arrowFollows : Nat → List TokenKind → Except Fault Bool
  | _, [] => .ok false
  | depth, .openParen :: rest => arrowFollows (depth + 1) rest
  | 0, .closeParen :: _ => .error .countBelowZero
  | 1, .closeParen :: rest => .ok (rest.head? == some .arrow)
  | depth + 2, .closeParen :: rest => arrowFollows (depth + 1) rest
  | depth, _ :: rest => arrowFollows depth rest

/-- Whether an arrow follows the parenthesis that matches the next token. -/
def isParenthesizedLambda : Procedure Bool :=
  fun p => (arrowFollows 0 ((p.tokens.toList.drop p.index).map (·.kind))).map fun answer =>
    (answer, p)

/-- A parameter of a lambda expression: a name, or a declaration. -/
def lambdaParameter (q : Procedures) : Procedure CompletedNode :=
  marked fun m => do
    if (← isAt .ident) && ((← isAhead 1 .comma) || (← isAhead 1 .closeParen)) then
      bump
    else
      let _ ← modifierList q .variableModifiers
      orReport .expectedType (q.type .parameter)
      expect .ident .expectedIdentifier
    complete m .parameter

/-- A parameter, and whether another one follows. -/
def lambdaParameterTurn (q : Procedures) : Procedure Bool := do
  let _ ← lambdaParameter q
  eat .comma

/-- The parameters of a lambda expression. -/
def lambdaParameters (q : Procedures) : Procedure CompletedNode :=
  marked fun m => do
    if ← isAt .ident then
      let _ ← marked fun parameter => do
        bump
        complete parameter .parameter
    else
      bump
      unless ← isAt .closeParen do
        repeatWhile (lambdaParameterTurn q)
      expect .closeParen .expectedRParen
    complete m .parameterList

/-- A lambda expression. -/
def lambda (q : Procedures) : Procedure CompletedNode :=
  marked fun m => do
    let _ ← lambdaParameters q
    let _ ← eat .arrow
    if ← isAt .openBrace then
      let _ ← codeBlock
    else
      orReport .expectedExpression q.expression
    complete m .lambdaExpression

/-- An argument, and whether another one follows. -/
def parameterTurn (q : Procedures) : Procedure Bool := do
  if (← q.expression).isNone then
    report .expectedExpression
    return false
  else
    eat .comma

/-- Arguments between parentheses. The next token is `(`. -/
def arguments (q : Procedures) : Procedure CompletedNode :=
  marked fun m => do
    bump
    unless ← isAt .closeParen do
      repeatWhile (parameterTurn q)
    expect .closeParen .expectedRParen
    complete m .expressionList

/-- A value, and whether another one may follow. -/
def valueTurn (q : Procedures) : Procedure Bool := do
  if (← isAt .closeBrace) || (← isAtEnd) then
    return false
  else if ← isAt .openBrace then
    let _ ← q.arrayInitializer
    eat .comma
  else if (← q.expression).isNone then
    report .expectedExpression
    return false
  else
    eat .comma

/-- Values between braces, with a comma behind the last one or without. The next token is
`{`. -/
def arrayInitializer (q : Procedures) : Procedure CompletedNode :=
  marked fun m => do
    bump
    repeatWhile (valueTurn q)
    expect .closeBrace .expectedRBrace
    complete m .arrayInitializerExpression

/-- A dimension of a new array, if there is one. -/
def dimensionTurn (q : Procedures) : Procedure Bool := do
  if ← eat .openBracket then
    unless ← isAt .closeBracket do
      orReport .expectedExpression q.expression
    expect .closeBracket .expectedRBracket
    return true
  else
    return false

/-- What follows the type of a new object or array. -/
def newTail (q : Procedures) (isPrimitive : Bool) : Procedure Unit := do
  if ← isAt .openBracket then
    repeatWhile (dimensionTurn q)
    if ← isAt .openBrace then
      let _ ← q.arrayInitializer
  else if !isPrimitive && (← isAt .openParen) then
    let _ ← arguments q
    if ← isAt .openBrace then
      let _ ← codeBlock
  else
    report .expectedLParen

/-- A new object or array. The next token is `new`. -/
def newExpression (q : Procedures) : Procedure CompletedNode :=
  marked fun m => do
    bump
    let isPrimitive := (← next).any TokenKind.isPrimitiveType
    if isPrimitive then
      let _ ← marked fun type => do
        bump
        complete type .type
      newTail q isPrimitive
    else if ← isAt .ident then
      let _ ← codeReference q false true
      newTail q isPrimitive
    else
      report .expectedType
    complete m .newExpression

/-- An operand that is the next token. -/
def leaf (kind : NodeKind) : Procedure CompletedNode :=
  marked fun m => do
    bump
    complete m kind

/-- An expression between parentheses. The next token is `(`. -/
def parenthesized (q : Procedures) : Procedure CompletedNode :=
  marked fun m => do
    bump
    orReport .expectedExpression q.expression
    expect .closeParen .expectedRParen
    complete m .parenthesizedExpression

/-- The class object of a type. -/
def classObject (q : Procedures) : Procedure CompletedNode :=
  marked fun m => do
    let _ ← q.type .plain
    expect .dot .expectedExpression
    expect .classKw .expectedIdentifier
    complete m .classObjectAccessExpression

/-- Members, calls and elements of an operand. Only what is named can be called. -/
def selectorTurn (q : Procedures) (subject : CompletedNode) :
    Procedure (ForInStep CompletedNode) := do
  if ← isAt .dot then
    preceding subject fun m => do
      bump
      if ← eat .classKw then
        return .yield (← complete m .classObjectAccessExpression)
      else if ← eat .ident then
        return .yield (← complete m .referenceExpression)
      else
        report .expectedIdentifier
        return .done (← complete m .referenceExpression)
  else if (← isAt .openParen) && subject.kind == .node .referenceExpression then
    return .yield (← preceding subject fun m => do
      let _ ← arguments q
      complete m .methodCallExpression)
  else if ← isAt .openBracket then
    return .yield (← preceding subject fun m => do
      bump
      orReport .expectedExpression q.expression
      expect .closeBracket .expectedRBracket
      complete m .arrayAccessExpression)
  else
    return .done subject

/-- An operand with its selectors. -/
def selected (q : Procedures) (first : Procedure CompletedNode) :
    Procedure (Option CompletedNode) := do
  return some (← iterate (selectorTurn q) (← first))

/-- A lambda expression, or an operand with its selectors. -/
def primary (q : Procedures) (arrow : ArrowRole) : Procedure (Option CompletedNode) := do
  match ← next with
  | none => return none
  | some kind =>
    if kind.isLiteral then
      selected q (leaf .literalExpression)
    else if kind == .ident then
      if arrow == .lambda && (← isAhead 1 .arrow) then
        return some (← lambda q)
      else
        selected q (leaf .referenceExpression)
    else if kind == .thisKw then
      selected q (leaf .thisExpression)
    else if kind == .superKw then
      selected q (leaf .superExpression)
    else if kind == .openParen then
      let isLambda ← if arrow == .lambda then isParenthesizedLambda else pure false
      if isLambda then
        return some (← lambda q)
      else
        selected q (parenthesized q)
    else if kind == .newKw then
      selected q (newExpression q)
    else if kind.isPrimitiveType then
      selected q (classObject q)
    else
      return none

/-- An operator behind an operand. -/
def postfixTurn (subject : CompletedNode) : Procedure (ForInStep CompletedNode) := do
  if (← isAt .plusPlus) || (← isAt .minusMinus) then
    return .yield (← preceding subject fun m => do
      bump
      complete m .postfixExpression)
  else
    return .done subject

/-- A primary expression with the operators behind it. -/
def postfixOperand (q : Procedures) (arrow : ArrowRole) : Procedure (Option CompletedNode) :=
  grow (primary q arrow) postfixTurn

/-- A type in parentheses before an operand. If it turns out to be none, all is taken back. The next
token is `(`. -/
def cast (q : Procedures) (arrow : ArrowRole) : Procedure (Option CompletedNode) := do
  let before ← checkpoint
  marked fun m => do
    bump
    let isPrimitive := (← next).any TokenKind.isPrimitiveType
    let type ← q.type .plain
    let isCast := type.isSome && (← isAt .closeParen) && !(← hasErrorsSince before) &&
      (← ahead 1).any (TokenKind.startsCastOperand isPrimitive)
    if isCast then
      bump
      orReport .expectedExpression (q.unary arrow)
      return some (← complete m .typeCastExpression)
    else
      abandon m
      rollback before
      return none

/-- An operand with the operators and casts before it. -/
def unary (q : Procedures) (arrow : ArrowRole) : Procedure (Option CompletedNode) := do
  match ← next with
  | none => return none
  | some kind =>
    if kind.isPrefixOperator then
      return some (← marked fun m => do
        bump
        orReport .expectedExpression (q.binary prefixPower arrow)
        complete m .prefixExpression)
    else if kind == .openParen then
      match ← cast q arrow with
      | some node => return some node
      | none => postfixOperand q arrow
    else
      postfixOperand q arrow

/-- The right side of `instanceof`. -/
def instanceofOperand (q : Procedures) : Procedure Unit := do
  if ← isPattern q then
    let _ ← primaryPattern q
  else
    orReport .expectedType (q.type .plain)

/-- An operator behind its left operand, and its right operand. -/
def binaryTurn (q : Procedures) (least : Nat) (arrow : ArrowRole) (left : CompletedNode) :
    Procedure (ForInStep CompletedNode) := do
  match ← look Recorder.bindingPower? with
  | none => return .done left
  | some power =>
    if power.left < least then
      return .done left
    else
      preceding left fun m => do
        if ← eat .instanceofKw then
          instanceofOperand q
          return .yield (← complete m .instanceofExpression)
        else
          bumpMany power.width
          let found := (← q.binary power.right arrow).isSome
          unless found do
            report .expectedExpression
          let joined ← complete m .binaryExpression
          if found then return .yield joined else return .done joined

/-- Operands joined by binary operators that bind at least with the given power on their left. -/
def binary (q : Procedures) (least : Nat) (arrow : ArrowRole) :
    Procedure (Option CompletedNode) :=
  grow (q.unary arrow) (binaryTurn q least arrow)

/-- An expression that may have a condition. -/
def conditional (q : Procedures) (arrow : ArrowRole) : Procedure (Option CompletedNode) := do
  match ← q.binary 0 arrow with
  | none => return none
  | some condition =>
    if ← isAt .question then
      return some (← preceding condition fun m => do
        bump
        orReport .expectedExpression q.expression
        expect .colon .expectedColon
        orReport .expectedExpression (q.conditional arrow)
        complete m .conditionalExpression)
    else
      return some condition

end Procedure

end PatternSyntax
