import PatternSyntax.Grammar.Label

/-!
Tying the rules together. A rule may apply others, but only so deep.
-/

namespace PatternSyntax

namespace Rules

/-- The table in which every rule refers to the rules of another table. -/
def next (r : Rules) : Rules where
  annot := Grammar.annot r
  arrayInitializer := Grammar.arrayInitializer r
  type := Grammar.type r
  pattern := Grammar.pattern r
  unary := Grammar.unary r
  binary := Grammar.binary r
  conditional := Grammar.conditional r

/-- The table in which no rule can be applied. -/
def exhausted : Rules where
  annot := .fail .depthExceeded
  arrayInitializer := .fail .depthExceeded
  type _ := .fail .depthExceeded
  pattern := .fail .depthExceeded
  unary _ := .fail .depthExceeded
  binary _ _ := .fail .depthExceeded
  conditional _ := .fail .depthExceeded

/-- The table in which rules apply each other up to the given depth. -/
def ofDepth : Nat → Rules
  | 0 => exhausted
  | depth + 1 =>
    { annot := fun c => (ofDepth depth).next.annot c
      arrayInitializer := fun c => (ofDepth depth).next.arrayInitializer c
      type := fun flags c => (ofDepth depth).next.type flags c
      pattern := fun c => (ofDepth depth).next.pattern c
      unary := fun arrow c => (ofDepth depth).next.unary arrow c
      binary := fun level arrow c => (ofDepth depth).next.binary level arrow c
      conditional := fun arrow c => (ofDepth depth).next.conditional arrow c }

theorem ofDepth_succ (depth : Nat) : ofDepth (depth + 1) = (ofDepth depth).next :=
  rfl

end Rules

namespace Grammar

/-- Applies a rule as deep as the tokens ahead can need: at most five rules are applied at one and
the same token. -/
def deepEnough {α : Type} (g : Rules → Grammar α) : Grammar α :=
  fun c => g (.ofDepth (5 * c.rest.length + 5)) c

end Grammar

end PatternSyntax
