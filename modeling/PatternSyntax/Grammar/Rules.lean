import PatternSyntax.Grammar.Basic
import PatternSyntax.Grammar.Options

/-!
The rules that refer to each other. Each rule is written over a table of all of them.
-/

namespace PatternSyntax

/-- The rules that refer to each other. Those that may find nothing then leave nothing behind. -/
structure Rules where
  annot : Grammar Outline
  arrayInitializer : Grammar Outline
  type : TypeFlags → Grammar (Option Outline)
  pattern : Grammar Outline
  unary : ArrowRole → Grammar (Option Outline)
  /-- Operands joined by binary operators of at least the given level. -/
  binary : Nat → ArrowRole → Grammar (Option Outline)
  conditional : ArrowRole → Grammar (Option Outline)

namespace Rules

/-- A whole expression. -/
def expression (r : Rules) : Grammar (Option Outline) :=
  r.conditional .lambda

end Rules

end PatternSyntax
