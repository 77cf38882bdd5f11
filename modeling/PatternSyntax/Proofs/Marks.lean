import PatternSyntax.Proofs.Weave

/-!
The errors of an outline by the tokens that they are about. Where these tokens stand in the text
only comes in when the errors are located.
-/

namespace PatternSyntax.Proofs.Marks

open PatternSyntax.Proofs.Weave

mutual

/-- The errors of an outline, each with the index of the token that it is about. -/
def marks : Outline → List (ErrorKind × Nat)
  | .token _ => []
  | .error kind index => [(kind, index)]
  | .node _ parts => marksAll parts
  | .around _ first later => marks first ++ marksAll later
  | .loose parts => marksAll parts

/-- The errors of a row of outlines, each with the index of the token that it is about. -/
def marksAll : List Outline → List (ErrorKind × Nat)
  | [] => []
  | part :: rest => marks part ++ marksAll rest

end

def errorAt (locate : Nat → Nat) (mark : ErrorKind × Nat) : SyntaxError :=
  ⟨mark.1, .empty (locate mark.2)⟩

mutual

theorem errors_eq_map_marks (locate : Nat → Nat) (outline : Outline) :
    errors locate outline = (marks outline).map (errorAt locate) := by
  cases outline with
  | token kind => rfl
  | error kind index => rfl
  | node kind parts => exact errorsAll_eq_map_marks locate parts
  | around kind first later =>
      rw [errors, marks, List.map_append, errors_eq_map_marks locate first,
        errorsAll_eq_map_marks locate later]
  | loose parts => exact errorsAll_eq_map_marks locate parts

theorem errorsAll_eq_map_marks (locate : Nat → Nat) (parts : List Outline) :
    errorsAll locate parts = (marksAll parts).map (errorAt locate) := by
  cases parts with
  | nil => rfl
  | cons part rest =>
      rw [errorsAll, marksAll, List.map_append, errors_eq_map_marks locate part,
        errorsAll_eq_map_marks locate rest]

end

mutual

theorem hasError_eq_false_iff (outline : Outline) :
    outline.hasError = false ↔ marks outline = [] := by
  cases outline with
  | token kind => exact iff_of_true rfl rfl
  | error kind index => exact iff_of_false nofun nofun
  | node kind parts => exact hasErrorAll_eq_false_iff parts
  | around kind first later =>
      rw [Outline.hasError, marks, Bool.or_eq_false_iff, List.append_eq_nil_iff,
        hasError_eq_false_iff first, hasErrorAll_eq_false_iff later]
  | loose parts => exact hasErrorAll_eq_false_iff parts

theorem hasErrorAll_eq_false_iff (parts : List Outline) :
    Outline.hasErrorAll parts = false ↔ marksAll parts = [] := by
  cases parts with
  | nil => exact iff_of_true rfl rfl
  | cons part rest =>
      rw [Outline.hasErrorAll, marksAll, Bool.or_eq_false_iff, List.append_eq_nil_iff,
        hasError_eq_false_iff part, hasErrorAll_eq_false_iff rest]

end

/-- A text has no errors if and only if none was put down. -/
theorem errors_eq_nil_iff {s : Subject} {text : String} (a : Account s text) :
    a.parse.errors = [] ↔ Outline.hasErrorAll a.parts = false := by
  rw [Account.parse, errorsAll_eq_map_marks, List.map_eq_nil_iff, hasErrorAll_eq_false_iff]

end PatternSyntax.Proofs.Marks
