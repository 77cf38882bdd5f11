import PatternSyntax.Token.Kind

/-!
Tokens, and where they stand in the source text.
-/

namespace PatternSyntax

/-- A piece of source text with its kind. Offsets and lengths count bytes of UTF-8. -/
structure Token where
  kind : TokenKind
  start : Nat
  text : String
deriving DecidableEq, Repr, Inhabited

namespace Token

/-- The offset behind the token. -/
def stop (token : Token) : Nat :=
  token.start + token.text.utf8ByteSize

/-- The tokens that the grammar sees. -/
def significant (tokens : List Token) : List Token :=
  tokens.filter fun token => !token.kind.isTrivia

end Token

end PatternSyntax
