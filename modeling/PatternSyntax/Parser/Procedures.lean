import PatternSyntax.Grammar.Options
import PatternSyntax.Parser.Procedure

/-!
The procedures that refer to each other. Each procedure is written over a table of all of them.
-/

namespace PatternSyntax

/-- The procedures that refer to each other. Those that may find nothing then record nothing. -/
structure Procedures where
  annot : Procedure CompletedNode
  arrayInitializer : Procedure CompletedNode
  type : TypeFlags → Procedure (Option CompletedNode)
  pattern : Procedure CompletedNode
  unary : ArrowRole → Procedure (Option CompletedNode)
  /-- Operands joined by binary operators that bind at least with the given power on their left. -/
  binary : Nat → ArrowRole → Procedure (Option CompletedNode)
  conditional : ArrowRole → Procedure (Option CompletedNode)

namespace Procedures

/-- A whole expression. -/
def expression (q : Procedures) : Procedure (Option CompletedNode) :=
  q.conditional .lambda

end Procedures

end PatternSyntax
