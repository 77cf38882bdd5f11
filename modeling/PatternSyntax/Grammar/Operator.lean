import PatternSyntax.Grammar.Basic

/-!
Operators of expressions and how tightly they bind.
-/

namespace PatternSyntax

/-- A binary operator: how tightly it binds, and of how many tokens it consists. -/
structure BinaryOperator where
  level : Nat
  width : Nat
deriving DecidableEq, Repr

namespace BinaryOperator

/-- The binary operator at the front, `instanceof` being one of them. Those that begin with `>` are
put together from tokens that touch. -/
def ofTerminals? : List Terminal → Option BinaryOperator
  | [] => none
  | ⟨.gt, true⟩ :: ⟨.gt, true⟩ :: ⟨.gt, _⟩ :: _ => some ⟨8, 3⟩
  | ⟨.gt, true⟩ :: ⟨.gt, _⟩ :: _ => some ⟨8, 2⟩
  | ⟨.gt, true⟩ :: ⟨.assign, _⟩ :: _ => some ⟨7, 2⟩
  | ⟨kind, _⟩ :: _ =>
    match kind with
    | .orOr => some ⟨1, 1⟩
    | .andAnd => some ⟨2, 1⟩
    | .vbar => some ⟨3, 1⟩
    | .caret => some ⟨4, 1⟩
    | .ampersand => some ⟨5, 1⟩
    | .eqEq | .notEq => some ⟨6, 1⟩
    | .lt | .ltEq | .gt | .instanceofKw => some ⟨7, 1⟩
    | .shl => some ⟨8, 1⟩
    | .plus | .minus => some ⟨9, 1⟩
    | .asterisk | .slash | .percent => some ⟨10, 1⟩
    | _ => none

/-- The level that only operands reach. -/
def operandLevel : Nat :=
  11

end BinaryOperator

end PatternSyntax
