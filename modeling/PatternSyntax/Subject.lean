/-!
What a text can be parsed as.
-/

namespace PatternSyntax

/-- What a text is taken for. -/
inductive Subject where
  | pattern
  | expression
  | switchLabel
deriving DecidableEq, Repr, Inhabited

namespace Subject

/-- Every subject. -/
def all : List Subject :=
  [pattern, expression, switchLabel]

/-- What a subject is called. -/
def name : Subject → String
  | pattern => "pattern"
  | expression => "expression"
  | switchLabel => "switch-label"

/-- The subject called `text`. -/
def ofName? (text : String) : Option Subject :=
  all.find? fun s => s.name == text

theorem ofName?_name (s : Subject) : ofName? s.name = some s := by
  cases s <;> rfl

end Subject

end PatternSyntax
