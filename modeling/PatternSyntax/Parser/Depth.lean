import PatternSyntax.Parser.Label

/-!
Tying the procedures together. A procedure may call others, but only so deep.
-/

namespace PatternSyntax

namespace Procedures

/-- The table in which every procedure refers to the procedures of another table. -/
def next (q : Procedures) : Procedures where
  annot := Procedure.annot q
  arrayInitializer := Procedure.arrayInitializer q
  type := Procedure.type q
  pattern := Procedure.pattern q
  unary := Procedure.unary q
  binary := Procedure.binary q
  conditional := Procedure.conditional q

/-- The table in which no procedure can be called. -/
def exhausted : Procedures where
  annot := .fail .depthExceeded
  arrayInitializer := .fail .depthExceeded
  type _ := .fail .depthExceeded
  pattern := .fail .depthExceeded
  unary _ := .fail .depthExceeded
  binary _ _ := .fail .depthExceeded
  conditional _ := .fail .depthExceeded

/-- The table in which procedures call each other up to the given depth. -/
def ofDepth : Nat → Procedures
  | 0 => exhausted
  | depth + 1 =>
    { annot := fun p => (ofDepth depth).next.annot p
      arrayInitializer := fun p => (ofDepth depth).next.arrayInitializer p
      type := fun flags p => (ofDepth depth).next.type flags p
      pattern := fun p => (ofDepth depth).next.pattern p
      unary := fun arrow p => (ofDepth depth).next.unary arrow p
      binary := fun least arrow p => (ofDepth depth).next.binary least arrow p
      conditional := fun arrow p => (ofDepth depth).next.conditional arrow p }

theorem ofDepth_succ (depth : Nat) : ofDepth (depth + 1) = (ofDepth depth).next :=
  rfl

end Procedures

namespace Procedure

/-- Runs a procedure as deep as the tokens ahead can need: at most five procedures are called at one
and the same token. -/
def deepEnough {α : Type} (f : Procedures → Procedure α) : Procedure α :=
  fun p => f (.ofDepth (5 * (p.tokens.size - p.index) + 5)) p

end Procedure

end PatternSyntax
