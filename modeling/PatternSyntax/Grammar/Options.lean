import PatternSyntax.Token.Kind

/-!
What the parsers of types and expressions are asked for, and the classes of tokens that decide how
an expression goes on.
-/

namespace PatternSyntax

/-- What may be part of a type. -/
structure TypeFlags where
  /-- A dot behind a name is taken even if no name follows, which is then an error. -/
  eatLastDot : Bool
  /-- A `?` is a type. -/
  wildcard : Bool
  /-- A `...` may follow. -/
  ellipsis : Bool
deriving DecidableEq, Repr, Inhabited

namespace TypeFlags

/-- A plain type. -/
def plain : TypeFlags :=
  ⟨false, false, false⟩

/-- A type argument. -/
def argument : TypeFlags :=
  ⟨false, true, false⟩

/-- The type of a lambda parameter. -/
def parameter : TypeFlags :=
  ⟨false, false, true⟩

/-- The type of a pattern. -/
def pattern : TypeFlags :=
  ⟨true, true, false⟩

end TypeFlags

/-- What an arrow behind a name or a parenthesis means: it makes a lambda expression, or it ends
the label that the expression is part of. -/
inductive ArrowRole where
  | lambda
  | terminator
deriving DecidableEq, Repr, Inhabited

namespace TokenKind

/-- The operators that stand before their operand. -/
def isPrefixOperator : TokenKind → Bool
  | plus | minus | plusPlus | minusMinus | bang | tilde => true
  | _ => false

/-- The tokens that can follow a type in parentheses and make it a cast. A sign does so only if the
type is primitive, because it could also be binary. -/
def startsCastOperand (isPrimitive : Bool) : TokenKind → Bool
  | ident | openParen | bang | tilde | thisKw | superKw | newKw => true
  | plus | minus | plusPlus | minusMinus => isPrimitive
  | kind => kind.isLiteral || kind.isPrimitiveType

end TokenKind

end PatternSyntax
