import PatternSyntax.Proofs.Sketches

/-!
Types and expressions as they are meant, each with the sketch of how it is written down.
-/

namespace PatternSyntax.Proofs.Sources

open Grammar (arrowFollows)
open PatternSyntax.Proofs.Sketches
open PatternSyntax.Proofs.Spelling

structure Name where
  text : String
  isIdent : Token.isIdent text = true

/-- A literal, which is a single token. -/
structure Literal where
  kind : TokenKind
  text : String
  isLiteral : kind.isLiteral = true
  isWord : IsWord kind text

/-- A keyword, operator or separator. -/
def mark (kind : TokenKind) : Sketch :=
  .token ⟨kind, kind.spelling?.getD "", false⟩

namespace Name

def sketch (name : Name) : Sketch :=
  .token ⟨.ident, name.text, false⟩

end Name

namespace Literal

def sketch (literal : Literal) : Sketch :=
  .token ⟨literal.kind, literal.text, false⟩

end Literal

/-- The name of a primitive type, or `void`. -/
structure PrimitiveType where
  kind : TokenKind
  isPrimitiveType : kind.isPrimitiveType = true

mutual

/-- A name of a class, with or without arguments to each of its parts. -/
inductive Reference where
  | name (name : Name) (arguments : Option (List Argument))
  | member (outer : Reference) (name : Name) (arguments : Option (List Argument))

inductive TypeTree where
  | primitive (type : PrimitiveType)
  | reference (reference : Reference)
  | array (element : TypeTree)

/-- An argument to a class: a type, or a wildcard with or without a bound. -/
inductive Argument where
  | type (type : TypeTree)
  | wildcard
  | upper (bound : TypeTree)
  | lower (bound : TypeTree)

end

mutual

/-- How the name of a class is written. -/
def Reference.sketch : Reference → Sketch
  | .name name arguments => .node .javaCodeReference (name.sketch :: argumentsSketch arguments)
  | .member outer name arguments =>
    .around .javaCodeReference outer.sketch
      (mark .dot :: name.sketch :: argumentsSketch arguments)

def TypeTree.sketch : TypeTree → Sketch
  | .primitive type => .node .type [mark type.kind]
  | .reference reference => .node .type [reference.sketch]
  | .array element => .around .type element.sketch [mark .openBracket, mark .closeBracket]

/-- How an argument to a class is written. -/
def Argument.sketch : Argument → Sketch
  | .type type => type.sketch
  | .wildcard => .node .type [mark .question]
  | .upper bound => .node .type [mark .question, mark .extendsKw, bound.sketch]
  | .lower bound => .node .type [mark .question, mark .superKw, bound.sketch]

/-- How all arguments to a class are written. -/
def argumentsSketch : Option (List Argument) → List Sketch
  | none => []
  | some arguments =>
    [.node .referenceParameterList (mark .lt :: (argumentRow arguments ++ [mark .gt]))]

/-- How arguments are written around commas. -/
def argumentRow : List Argument → List Sketch
  | [] => []
  | [last] => [last.sketch]
  | argument :: next :: rest => argument.sketch :: mark .comma :: argumentRow (next :: rest)

end

namespace TypeTree

/-- Whether a type is primitive, or an array of a primitive type. -/
def isPrimitive : TypeTree → Bool
  | primitive _ => true
  | reference _ => false
  | array element => element.isPrimitive

end TypeTree

/-- The binary operators but for `instanceof`. -/
inductive Operator where
  | or | and | bitOr | bitXor | bitAnd | equal | notEqual | less | lessEqual | greater
  | greaterEqual | shiftLeft | shiftRight | unsignedShiftRight | plus | minus | times | divided
  | modulo
deriving DecidableEq, Repr

namespace Operator

/-- The tokens of an operator, which touch. -/
def lexemes : Operator → List Lexeme
  | or => [⟨.orOr, "||", false⟩]
  | and => [⟨.andAnd, "&&", false⟩]
  | bitOr => [⟨.vbar, "|", false⟩]
  | bitXor => [⟨.caret, "^", false⟩]
  | bitAnd => [⟨.ampersand, "&", false⟩]
  | equal => [⟨.eqEq, "==", false⟩]
  | notEqual => [⟨.notEq, "!=", false⟩]
  | less => [⟨.lt, "<", false⟩]
  | lessEqual => [⟨.ltEq, "<=", false⟩]
  | greater => [⟨.gt, ">", false⟩]
  | greaterEqual => [⟨.gt, ">", true⟩, ⟨.assign, "=", false⟩]
  | shiftLeft => [⟨.shl, "<<", false⟩]
  | shiftRight => [⟨.gt, ">", true⟩, ⟨.gt, ">", false⟩]
  | unsignedShiftRight => [⟨.gt, ">", true⟩, ⟨.gt, ">", true⟩, ⟨.gt, ">", false⟩]
  | plus => [⟨.plus, "+", false⟩]
  | minus => [⟨.minus, "-", false⟩]
  | times => [⟨.asterisk, "*", false⟩]
  | divided => [⟨.slash, "/", false⟩]
  | modulo => [⟨.percent, "%", false⟩]

def level : Operator → Nat
  | or => 1
  | and => 2
  | bitOr => 3
  | bitXor => 4
  | bitAnd => 5
  | equal | notEqual => 6
  | less | lessEqual | greater | greaterEqual => 7
  | shiftLeft | shiftRight | unsignedShiftRight => 8
  | plus | minus => 9
  | times | divided | modulo => 10

/-- The tokens of an operator are read as an operator of its level, whatever follows. -/
theorem ofTerminals?_lexemes (operator : Operator) (rest : List Terminal) :
    BinaryOperator.ofTerminals? (operator.lexemes.map Lexeme.terminal ++ rest) =
      some ⟨operator.level, operator.lexemes.length⟩ := by
  cases operator with
  | _ => rfl

end Operator

/-- The operators behind an operand. -/
inductive Step where
  | increment | decrement
deriving DecidableEq, Repr

/-- The operators before an operand. -/
inductive Sign where
  | plus | minus | increment | decrement | not | complement
deriving DecidableEq, Repr

mutual

/-- What needs no parentheses anywhere. -/
inductive Primary where
  | literal (literal : Literal)
  | name (name : Name)
  | self
  | parent
  | grouped (inner : Expression)
  | member (subject : Primary) (name : Name)
  | call (name : Name) (arguments : List Expression)
  | memberCall (subject : Primary) (name : Name) (arguments : List Expression)
  | element (subject : Primary) (position : Expression)

/-- A primary expression with the operators behind it. -/
inductive Stepped where
  | primary (operand : Primary)
  | step (operand : Stepped) (step : Step)

/-- An operand with the operators and casts before it. -/
inductive Unary where
  | stepped (operand : Stepped)
  | signed (sign : Sign) (operand : Unary)
  | cast (type : TypeTree) (operand : Unary)

/-- Operands joined by binary operators. -/
inductive Binary where
  | unary (operand : Unary)
  | join (operator : Operator) (left right : Binary)

inductive Expression where
  | binary (operand : Binary)
  | conditional (condition : Binary) (yes no : Expression)

end

namespace Step

def kind : Step → TokenKind
  | increment => .plusPlus
  | decrement => .minusMinus

end Step

namespace Sign

def kind : Sign → TokenKind
  | plus => .plus
  | minus => .minus
  | increment => .plusPlus
  | decrement => .minusMinus
  | not => .bang
  | complement => .tilde

end Sign

mutual

/-- How a primary expression is written. -/
def Primary.sketch : Primary → Sketch
  | .literal literal => .node .literalExpression [literal.sketch]
  | .name name => .node .referenceExpression [name.sketch]
  | .self => .node .thisExpression [mark .thisKw]
  | .parent => .node .superExpression [mark .superKw]
  | .grouped inner =>
    .node .parenthesizedExpression [mark .openParen, inner.sketch, mark .closeParen]
  | .member subject name => .around .referenceExpression subject.sketch [mark .dot, name.sketch]
  | .call name arguments =>
    .around .methodCallExpression (.node .referenceExpression [name.sketch])
      [.node .expressionList (mark .openParen :: (expressionRow arguments ++ [mark .closeParen]))]
  | .memberCall subject name arguments =>
    .around .methodCallExpression
      (.around .referenceExpression subject.sketch [mark .dot, name.sketch])
      [.node .expressionList (mark .openParen :: (expressionRow arguments ++ [mark .closeParen]))]
  | .element subject position =>
    .around .arrayAccessExpression subject.sketch
      [mark .openBracket, position.sketch, mark .closeBracket]

/-- How a primary expression with operators behind it is written. -/
def Stepped.sketch : Stepped → Sketch
  | .primary operand => operand.sketch
  | .step operand step => .around .postfixExpression operand.sketch [mark step.kind]

/-- How an operand with operators and casts before it is written. -/
def Unary.sketch : Unary → Sketch
  | .stepped operand => operand.sketch
  | .signed sign operand => .node .prefixExpression [mark sign.kind, operand.sketch]
  | .cast type operand =>
    .node .typeCastExpression [mark .openParen, type.sketch, mark .closeParen, operand.sketch]

/-- How operands joined by binary operators are written. -/
def Binary.sketch : Binary → Sketch
  | .unary operand => operand.sketch
  | .join operator left right =>
    .around .binaryExpression left.sketch (operator.lexemes.map Sketch.token ++ [right.sketch])

def Expression.sketch : Expression → Sketch
  | .binary operand => operand.sketch
  | .conditional condition yes no =>
    .around .conditionalExpression condition.sketch
      [mark .question, yes.sketch, mark .colon, no.sketch]

/-- How expressions are written around commas. -/
def expressionRow : List Expression → List Sketch
  | [] => []
  | [last] => [last.sketch]
  | argument :: next :: rest => argument.sketch :: mark .comma :: expressionRow (next :: rest)

end

namespace Binary

/-- The level of the topmost operator. Operands are above all operators. -/
def level : Binary → Nat
  | unary _ => BinaryOperator.operandLevel
  | join operator _ _ => operator.level

end Binary

mutual

/-- A primary expression that is read back as it is written. -/
def Primary.WellFormed : Primary → Prop
  | .literal _ => True
  | .name _ => True
  | .self => True
  | .parent => True
  | .grouped inner => inner.WellFormed
  | .member subject _ => subject.WellFormed
  | .call _ arguments => AllWellFormed arguments
  | .memberCall subject _ arguments => subject.WellFormed ∧ AllWellFormed arguments
  | .element subject position => subject.WellFormed ∧ position.WellFormed

/-- A primary expression with operators behind it that is read back as it is written. -/
def Stepped.WellFormed : Stepped → Prop
  | .primary operand => operand.WellFormed
  | .step operand _ => operand.WellFormed

/-- An operand that is read back as it is written: behind a cast to a class there is no sign that
could also be binary. -/
def Unary.WellFormed : Unary → Prop
  | .stepped operand => operand.WellFormed
  | .signed _ operand => operand.WellFormed
  | .cast type operand =>
    operand.WellFormed ∧ ∀ first ∈ operand.sketch.lexemes.head?,
      first.kind ∈ [.plus, .minus, .plusPlus, .minusMinus] → type.isPrimitive = true

/-- Operands that are read back as they are written: a left operand binds at least as tightly as
the operator, a right one more tightly. -/
def Binary.WellFormed : Binary → Prop
  | .unary operand => operand.WellFormed
  | .join operator left right =>
    left.WellFormed ∧ right.WellFormed ∧ operator.level ≤ left.level ∧
      operator.level < right.level

/-- An expression that is read back as it is written. -/
def Expression.WellFormed : Expression → Prop
  | .binary operand => operand.WellFormed
  | .conditional condition yes no => condition.WellFormed ∧ yes.WellFormed ∧ no.WellFormed

/-- Expressions that are read back as they are written. -/
def AllWellFormed : List Expression → Prop
  | [] => True
  | expression :: rest => expression.WellFormed ∧ AllWellFormed rest

end

mutual

def Primary.decideWellFormed (primary : Primary) : Decidable primary.WellFormed :=
  match primary with
  | .literal _ => .isTrue trivial
  | .name _ => .isTrue trivial
  | .self => .isTrue trivial
  | .parent => .isTrue trivial
  | .grouped inner => inner.decideWellFormed
  | .member subject _ => subject.decideWellFormed
  | .call _ arguments => decideAllWellFormed arguments
  | .memberCall subject _ arguments =>
    @instDecidableAnd _ _ subject.decideWellFormed (decideAllWellFormed arguments)
  | .element subject position =>
    @instDecidableAnd _ _ subject.decideWellFormed position.decideWellFormed

def Stepped.decideWellFormed (stepped : Stepped) : Decidable stepped.WellFormed :=
  match stepped with
  | .primary operand => operand.decideWellFormed
  | .step operand _ => operand.decideWellFormed

def Unary.decideWellFormed (unary : Unary) : Decidable unary.WellFormed :=
  match unary with
  | .stepped operand => operand.decideWellFormed
  | .signed _ operand => operand.decideWellFormed
  | .cast _ operand => @instDecidableAnd _ _ operand.decideWellFormed inferInstance

def Binary.decideWellFormed (binary : Binary) : Decidable binary.WellFormed :=
  match binary with
  | .unary operand => operand.decideWellFormed
  | .join _ left right =>
    @instDecidableAnd _ _ left.decideWellFormed
      (@instDecidableAnd _ _ right.decideWellFormed inferInstance)

def Expression.decideWellFormed (expression : Expression) : Decidable expression.WellFormed :=
  match expression with
  | .binary operand => operand.decideWellFormed
  | .conditional condition yes no =>
    @instDecidableAnd _ _ condition.decideWellFormed
      (@instDecidableAnd _ _ yes.decideWellFormed no.decideWellFormed)

def decideAllWellFormed (expressions : List Expression) : Decidable (AllWellFormed expressions) :=
  match expressions with
  | [] => .isTrue trivial
  | expression :: rest =>
    @instDecidableAnd _ _ expression.decideWellFormed (decideAllWellFormed rest)

end

instance : DecidablePred Expression.WellFormed :=
  Expression.decideWellFormed

/-- An opening or closing parenthesis. -/
def isParenthesis (kind : TokenKind) : Bool :=
  kind == .openParen || kind == .closeParen

/-- Tokens that close all parentheses they open, and no others: the search for the arrow of a
lambda expression passes them over. -/
def Even (row : List Lexeme) : Prop :=
  ∀ depth rest, arrowFollows depth (row.map Lexeme.terminal ++ rest) = arrowFollows depth rest

theorem Even.append {front back : List Lexeme} (hfront : Even front) (hback : Even back) :
    Even (front ++ back) := by
  intro depth rest
  rw [List.map_append, List.append_assoc, hfront, hback]

theorem arrowFollows_of_not_isParenthesis {terminal : Terminal} {rest : List Terminal}
    (h : isParenthesis terminal.kind = false) (depth : Nat) :
    arrowFollows depth (terminal :: rest) = arrowFollows depth rest := by
  obtain ⟨kind, glued⟩ := terminal
  cases kind with
  | openParen => cases h
  | closeParen => cases h
  | _ => rfl

theorem even_of_forall {row : List Lexeme}
    (h : ∀ lexeme ∈ row, isParenthesis lexeme.kind = false) : Even row := by
  induction row with
  | nil => exact fun _ _ => rfl
  | cons lexeme row ih =>
      obtain ⟨hlexeme, hrow⟩ := List.forall_mem_cons.1 h
      intro depth rest
      rw [List.map_cons, List.cons_append, arrowFollows_of_not_isParenthesis hlexeme, ih hrow]

theorem Even.grouped {row : List Lexeme} (h : Even row) :
    Even (⟨.openParen, "(", false⟩ :: (row ++ [⟨.closeParen, ")", false⟩])) := by
  intro depth rest
  rw [List.map_cons, List.map_append, List.cons_append, List.append_assoc]
  exact h (depth + 1) _

/-- Tokens that can be read back, none of which is an at sign, and which close the parentheses they
open. Of the last it is also said that the first parenthesis is no closing one. -/
structure Fine (row : List Lexeme) : Prop where
  spelled : Spelled row
  calm : ∀ lexeme ∈ row, lexeme.kind ≠ .atSign
  opens : ∀ lexeme ∈ row.find? (fun lexeme => isParenthesis lexeme.kind),
    lexeme.kind = .openParen
  even : Even row

theorem fine_nil : Fine [] :=
  ⟨.nil, nofun, nofun, fun _ _ => rfl⟩

theorem Fine.append {front back : List Lexeme} (hfront : Fine front) (hback : Fine back) :
    Fine (front ++ back) := by
  refine ⟨hfront.spelled.append hback.spelled, List.forall_mem_append.2 ⟨hfront.calm, hback.calm⟩,
    fun lexeme hfound => ?_, hfront.even.append hback.even⟩
  rw [List.find?_append] at hfound
  cases hfirst : front.find? fun lexeme => isParenthesis lexeme.kind with
  | none =>
      rw [hfirst] at hfound
      exact hback.opens lexeme hfound
  | some first =>
      rw [hfirst] at hfound
      exact hfront.opens lexeme (hfirst.trans hfound)

theorem PrimitiveType.marks (type : PrimitiveType) : type.kind ≠ .atSign ∧
    isParenthesis type.kind = false ∧ type.kind.spelling?.isSome = true := by
  have hall : ∀ kind ∈ TokenKind.all, kind.isPrimitiveType = true → kind ≠ .atSign ∧
      isParenthesis kind = false ∧ kind.spelling?.isSome = true := by
    decide
  exact hall _ (TokenKind.mem_all _) type.isPrimitiveType

theorem fine_token {kind : TokenKind} {text : String} (hword : IsWord kind text)
    (hkind : kind ≠ .atSign ∧ isParenthesis kind = false) :
    Fine (Sketch.token ⟨kind, text, false⟩).lexemes := by
  refine ⟨.cons hword .nil, List.forall_mem_singleton.2 hkind.1, fun lexeme hfound => ?_,
    even_of_forall (List.forall_mem_singleton.2 hkind.2)⟩
  have hparenthesis := List.find?_some hfound
  cases List.mem_singleton.1 (List.mem_of_find?_eq_some hfound)
  exact absurd hparenthesis (by rw [hkind.2]; exact Bool.false_ne_true)

theorem isWord_mark {kind : TokenKind} (hkind : kind.spelling?.isSome = true) :
    IsWord kind (kind.spelling?.getD "") := by
  obtain ⟨text, htext⟩ := Option.isSome_iff_exists.1 hkind
  rw [htext]
  exact isWord_spelling htext

theorem fine_mark {kind : TokenKind} (hkind : kind ≠ .atSign ∧ isParenthesis kind = false ∧
    kind.spelling?.isSome = true) : Fine (mark kind).lexemes :=
  fine_token (isWord_mark hkind.2.2) ⟨hkind.1, hkind.2.1⟩

theorem fine_name (name : Name) : Fine name.sketch.lexemes :=
  fine_token (isWord_of_isIdent name.isIdent) (by decide)

theorem Fine.cons {part : Sketch} {rest : List Sketch} (hpart : Fine part.lexemes)
    (hrest : Fine (Sketch.lexemesAll rest)) : Fine (Sketch.lexemesAll (part :: rest)) :=
  hpart.append hrest

theorem Fine.single {part : Sketch} (hpart : Fine part.lexemes) :
    Fine (Sketch.lexemesAll [part]) :=
  hpart.cons fine_nil

theorem Fine.node {kind : NodeKind} {parts : List Sketch} (h : Fine (Sketch.lexemesAll parts)) :
    Fine (Sketch.node kind parts).lexemes :=
  h

theorem Fine.closed {parts : List Sketch} {last : Sketch} (h : Fine (Sketch.lexemesAll parts))
    (hlast : Fine last.lexemes) : Fine (Sketch.lexemesAll (parts ++ [last])) := by
  rw [Sketch.lexemesAll_append]
  exact h.append hlast.single

theorem Fine.grouped {parts : List Sketch} (h : Fine (Sketch.lexemesAll parts)) :
    Fine (Sketch.lexemesAll (mark .openParen :: (parts ++ [mark .closeParen]))) := by
  have hclose : (Sketch.lexemesAll [mark .closeParen]) = [⟨.closeParen, ")", false⟩] := rfl
  have hopen : (mark .openParen).lexemes = [⟨.openParen, "(", false⟩] := rfl
  rw [Sketch.lexemesAll, Sketch.lexemesAll_append, hclose, hopen, List.singleton_append]
  refine ⟨?_, ?_, fun lexeme hfound => ?_, h.even.grouped⟩
  · exact .cons (isWord_spelling rfl) (h.spelled.append (.cons (isWord_spelling rfl) .nil))
  · exact List.forall_mem_cons.2 ⟨by decide, List.forall_mem_append.2 ⟨h.calm,
      List.forall_mem_singleton.2 (by decide)⟩⟩
  · cases Option.some.inj hfound
    rfl

mutual

theorem Reference.fine (reference : Reference) : Fine reference.sketch.lexemes := by
  cases reference with
  | name name arguments => exact (fine_name name).cons (fine_argumentsSketch arguments)
  | member outer name arguments =>
      exact outer.fine.append ((fine_mark (by decide)).cons
        ((fine_name name).cons (fine_argumentsSketch arguments)))

theorem TypeTree.fine (type : TypeTree) : Fine type.sketch.lexemes := by
  cases type with
  | primitive type => exact (fine_mark type.marks).single
  | reference reference => exact reference.fine.single
  | array element =>
      exact element.fine.append ((fine_mark (by decide)).cons (fine_mark (by decide)).single)

theorem Argument.fine (argument : Argument) : Fine argument.sketch.lexemes := by
  cases argument with
  | type type => exact type.fine
  | wildcard => exact (fine_mark (by decide)).single
  | upper bound =>
      exact (fine_mark (by decide)).cons ((fine_mark (by decide)).cons bound.fine.single)
  | lower bound =>
      exact (fine_mark (by decide)).cons ((fine_mark (by decide)).cons bound.fine.single)

theorem fine_argumentsSketch (arguments : Option (List Argument)) :
    Fine (Sketch.lexemesAll (argumentsSketch arguments)) := by
  cases arguments with
  | none => exact fine_nil
  | some arguments =>
      exact ((fine_mark (by decide)).cons
        ((fine_argumentRow arguments).closed (fine_mark (by decide)))).node.single

theorem fine_argumentRow (arguments : List Argument) :
    Fine (Sketch.lexemesAll (argumentRow arguments)) := by
  match arguments with
  | [] => exact fine_nil
  | [last] => exact last.fine.single
  | argument :: next :: rest =>
      exact argument.fine.cons ((fine_mark (by decide)).cons (fine_argumentRow (next :: rest)))

end

theorem fine_literal (literal : Literal) : Fine literal.sketch.lexemes := by
  have hall : ∀ kind ∈ TokenKind.all, kind.isLiteral = true → kind ≠ .atSign ∧
      isParenthesis kind = false := by
    decide
  exact fine_token literal.isWord (hall _ (TokenKind.mem_all _) literal.isLiteral)

theorem fine_operator (operator : Operator) :
    Fine (Sketch.lexemesAll (operator.lexemes.map Sketch.token)) := by
  rw [Sketch.lexemesAll_token]
  have hrow : ∀ lexeme ∈ operator.lexemes, isParenthesis lexeme.kind = false := by
    cases operator with
    | _ => decide
  refine ⟨?_, ?_, fun lexeme hfound => ?_, even_of_forall hrow⟩
  · cases operator with
    | greaterEqual => exact .glue (.inr rfl) (.cons (isWord_spelling rfl) .nil)
    | shiftRight => exact .glue (.inl rfl) (.cons (isWord_spelling rfl) .nil)
    | unsignedShiftRight =>
        exact .glue (.inl rfl) (.glue (.inl rfl) (.cons (isWord_spelling rfl) .nil))
    | _ => exact .cons (isWord_spelling rfl) .nil
  · cases operator with
    | _ => decide
  · have hfirst := hrow lexeme (List.mem_of_find?_eq_some hfound)
    rw [List.find?_some hfound] at hfirst
    cases hfirst

mutual

theorem Primary.fine (primary : Primary) : Fine primary.sketch.lexemes := by
  cases primary with
  | literal literal => exact (fine_literal literal).single
  | name name => exact (fine_name name).single
  | self => exact (fine_mark (by decide)).single
  | parent => exact (fine_mark (by decide)).single
  | grouped inner => exact inner.fine.single.grouped
  | member subject name =>
      exact subject.fine.append ((fine_mark (by decide)).cons (fine_name name).single)
  | call name arguments =>
      exact (fine_name name).single.append (fine_expressionRow arguments).grouped.node.single
  | memberCall subject name arguments =>
      exact (subject.fine.append ((fine_mark (by decide)).cons (fine_name name).single)).append
        (fine_expressionRow arguments).grouped.node.single
  | element subject position =>
      exact subject.fine.append ((fine_mark (by decide)).cons
        (position.fine.cons (fine_mark (by decide)).single))

theorem Stepped.fine (stepped : Stepped) : Fine stepped.sketch.lexemes := by
  cases stepped with
  | primary operand => exact operand.fine
  | step operand step =>
      refine operand.fine.append (fine_mark ?_).single
      cases step <;> decide

theorem Unary.fine (unary : Unary) : Fine unary.sketch.lexemes := by
  cases unary with
  | stepped operand => exact operand.fine
  | signed sign operand =>
      refine (fine_mark ?_).cons operand.fine.single
      cases sign <;> decide
  | cast type operand =>
      exact type.fine.single.grouped.closed operand.fine

theorem Binary.fine (binary : Binary) : Fine binary.sketch.lexemes := by
  cases binary with
  | unary operand => exact operand.fine
  | join operator left right =>
      exact left.fine.append ((fine_operator operator).closed right.fine)

theorem Expression.fine (expression : Expression) : Fine expression.sketch.lexemes := by
  cases expression with
  | binary operand => exact operand.fine
  | conditional condition yes no =>
      exact condition.fine.append ((fine_mark (by decide)).cons (yes.fine.cons
        ((fine_mark (by decide)).cons no.fine.single)))

theorem fine_expressionRow (arguments : List Expression) :
    Fine (Sketch.lexemesAll (expressionRow arguments)) := by
  match arguments with
  | [] => exact fine_nil
  | [last] => exact last.fine.single
  | argument :: next :: rest =>
      exact argument.fine.cons ((fine_mark (by decide)).cons (fine_expressionRow (next :: rest)))

end

theorem Reference.begins (reference : Reference) : Begins (· = .ident) reference.sketch := by
  cases reference with
  | name name arguments => exact ⟨_, _, rfl, rfl⟩
  | member outer name arguments => exact outer.begins.around

/-- A type begins with the name of a primitive type if it is made of one, and with a name
otherwise. -/
theorem TypeTree.begins (type : TypeTree) :
    Begins (fun kind => kind.isPrimitiveType = type.isPrimitive ∧
      (kind = .ident ∨ kind.isPrimitiveType = true)) type.sketch := by
  cases type with
  | primitive type => exact ⟨_, _, rfl, type.isPrimitiveType, .inr type.isPrimitiveType⟩
  | reference reference =>
      refine (reference.begins.mono ?_).node
      rintro _ rfl
      exact ⟨rfl, .inl rfl⟩
  | array element => exact element.begins.around

theorem Argument.begins (argument : Argument) : Begins (· ≠ .gt) argument.sketch := by
  cases argument with
  | type type =>
      refine type.begins.mono ?_
      rintro _ ⟨-, hkind⟩ rfl
      rcases hkind with hkind | hkind
      · cases hkind
      · cases hkind
  | wildcard => exact ⟨_, _, rfl, by decide⟩
  | upper bound => exact ⟨_, _, rfl, by decide⟩
  | lower bound => exact ⟨_, _, rfl, by decide⟩

/-- The tokens with which a primary expression begins. -/
def startsOperand (kind : TokenKind) : Bool :=
  kind.isLiteral || kind == .ident || kind == .thisKw || kind == .superKw || kind == .openParen

theorem startsOperand_marks {kind : TokenKind} (h : startsOperand kind = true) :
    kind.isPrefixOperator = false ∧ kind.isPrimitiveType = false ∧ kind ≠ .closeParen := by
  have hall : ∀ kind ∈ TokenKind.all, startsOperand kind = true → kind.isPrefixOperator = false ∧
      kind.isPrimitiveType = false ∧ kind ≠ .closeParen := by
    decide
  exact hall kind (TokenKind.mem_all kind) h

/-- The tokens with which an expression begins. -/
def startsExpression (kind : TokenKind) : Bool :=
  startsOperand kind || kind.isPrefixOperator

theorem startsExpression_marks {kind : TokenKind} (h : startsExpression kind = true) :
    kind.isPrimitiveType = false ∧ kind ≠ .closeParen := by
  have hall : ∀ kind ∈ TokenKind.all, startsExpression kind = true →
      kind.isPrimitiveType = false ∧ kind ≠ .closeParen := by
    decide
  exact hall kind (TokenKind.mem_all kind) h

/-- What begins an expression can follow a cast, but a sign only one to a primitive type. -/
theorem startsCastOperand_of_startsExpression {kind : TokenKind} {isPrimitive : Bool}
    (h : startsExpression kind = true)
    (hsign : kind ∈ [.plus, .minus, .plusPlus, .minusMinus] → isPrimitive = true) :
    kind.startsCastOperand isPrimitive = true := by
  have hall : ∀ kind ∈ TokenKind.all, ∀ isPrimitive, startsExpression kind = true →
      (kind ∈ [.plus, .minus, .plusPlus, .minusMinus] → isPrimitive = true) →
        kind.startsCastOperand isPrimitive = true := by
    decide
  exact hall kind (TokenKind.mem_all kind) isPrimitive h hsign

theorem Primary.begins (primary : Primary) :
    Begins (fun kind => startsOperand kind = true) primary.sketch := by
  cases primary with
  | literal literal =>
      refine ⟨_, _, rfl, ?_⟩
      change startsOperand literal.kind = true
      rw [startsOperand, literal.isLiteral]
      rfl
  | name name => exact ⟨_, _, rfl, rfl⟩
  | self => exact ⟨_, _, rfl, rfl⟩
  | parent => exact ⟨_, _, rfl, rfl⟩
  | grouped inner => exact ⟨_, _, rfl, rfl⟩
  | member subject name => exact subject.begins.around
  | call name arguments => exact ⟨_, _, rfl, rfl⟩
  | memberCall subject name arguments => exact subject.begins.around.around
  | element subject position => exact subject.begins.around

theorem Stepped.begins (stepped : Stepped) :
    Begins (fun kind => startsOperand kind = true) stepped.sketch := by
  cases stepped with
  | primary operand => exact operand.begins
  | step operand step => exact operand.begins.around

theorem Unary.begins (unary : Unary) :
    Begins (fun kind => startsExpression kind = true) unary.sketch := by
  cases unary with
  | stepped operand =>
      exact operand.begins.mono fun kind hkind => by rw [startsExpression, hkind]; rfl
  | signed sign operand =>
      refine ⟨_, _, rfl, ?_⟩
      cases sign with
      | _ => rfl
  | cast type operand => exact ⟨_, _, rfl, rfl⟩

theorem Binary.begins (binary : Binary) :
    Begins (fun kind => startsExpression kind = true) binary.sketch := by
  cases binary with
  | unary operand => exact operand.begins
  | join operator left right => exact left.begins.around

theorem Expression.begins (expression : Expression) :
    Begins (fun kind => startsExpression kind = true) expression.sketch := by
  cases expression with
  | binary operand => exact operand.begins
  | conditional condition yes no => exact condition.begins.around

theorem begins_castOperand {type : TypeTree} {operand : Unary}
    (h : (Unary.cast type operand).WellFormed) :
    Begins (fun kind => kind.startsCastOperand type.isPrimitive = true) operand.sketch := by
  obtain ⟨first, later, hlexemes, hkind⟩ := operand.begins
  refine ⟨first, later, hlexemes, startsCastOperand_of_startsExpression hkind ?_⟩
  exact h.2 first (by rw [hlexemes]; rfl)

end PatternSyntax.Proofs.Sources
