import PatternSyntax.Proofs.Operands
import PatternSyntax.Proofs.Parentheses
import PatternSyntax.Proofs.Totality
import PatternSyntax.Proofs.TypeRuns

/-!
The language of types: every type is read as it is written, and what is read as a type without an
error and without an at sign is one, or what the flags let stand in its place.
-/

namespace PatternSyntax.Proofs.TypeLanguage

open Grammar
open PatternSyntax.Proofs.Contract
open PatternSyntax.Proofs.Coverage
open PatternSyntax.Proofs.Depth (RulesRefine)
open PatternSyntax.Proofs.Forward
open PatternSyntax.Proofs.Neatness (hasErrorAll_append)
open PatternSyntax.Proofs.Operands
open PatternSyntax.Proofs.Parentheses (tokensAll_append)
open PatternSyntax.Proofs.Runs (Refines)
open PatternSyntax.Proofs.Sketches
open PatternSyntax.Proofs.Sources
open PatternSyntax.Proofs.Totality
open PatternSyntax.Proofs.TypeRuns

variable {r : Rules} {c : Cursor}

def IsType (sketch : Sketch) : Prop :=
  ∃ type : TypeTree, type.sketch = sketch

/-- How an argument to a class is written. -/
def IsArgument (sketch : Sketch) : Prop :=
  ∃ argument : Argument, argument.sketch = sketch

/-- What can be read as a type: a type, and what the flags let stand in its place. -/
inductive Accepted (flags : TypeFlags) : Sketch → Prop
  | type {sketch : Sketch} : IsType sketch → Accepted flags sketch
  | wildcard {sketch : Sketch} : flags.wildcard = true → IsArgument sketch → Accepted flags sketch
  | ellipsis {sketch : Sketch} : flags.ellipsis = true → IsType sketch →
      Accepted flags (.around .type sketch [mark .ellipsis])

/-- There is neither an error nor an at sign in a row of outlines. -/
def Plain (parts : List Outline) : Prop :=
  Outline.hasErrorAll parts = false ∧ .atSign ∉ Outline.tokensAll parts

section Plain

variable {part : Outline} {parts rest later : List Outline} {kind : NodeKind}

theorem plain_append : Plain (parts ++ rest) ↔ Plain parts ∧ Plain rest := by
  rw [Plain, Plain, Plain, hasErrorAll_append, tokensAll_append, Bool.or_eq_false_iff,
    List.mem_append, not_or, and_and_and_comm]

theorem plain_node : Plain [.node kind parts] ↔ Plain parts := by
  simp [Plain, Outline.hasErrorAll, Outline.hasError, Outline.tokensAll, Outline.tokens]

end Plain

/-- If the outline is plain, then it is that of such a sketch. -/
def Written (P : Sketch → Prop) (outline : Outline) : Prop :=
  Plain [outline] → ∃ sketch, P sketch ∧ sketch.outline = outline

theorem Written.mono {P Q : Sketch → Prop} {outline : Outline} (h : Written P outline)
    (hPQ : ∀ sketch, P sketch → Q sketch) : Written Q outline := by
  intro hplain
  obtain ⟨sketch, hP, houtline⟩ := h hplain
  exact ⟨sketch, hPQ sketch hP, houtline⟩

/-- What stands before the dimensions of an array, by the way in which it begins. -/
def HeadRow (flags : TypeFlags) : TypeForm → List Outline → Prop
  | .missing, _ => True
  | .wildcard, parts => flags.wildcard = true ∧ Written IsArgument (.node .type parts)
  | .named, parts => Written IsType (.node .type parts)

theorem HeadRow.append {flags : TypeFlags} {form : TypeForm} {front parts : List Outline}
    (hfront : front = [] ∨ .atSign ∈ Outline.tokensAll front) (h : HeadRow flags form parts) :
    HeadRow flags form (front ++ parts) := by
  rcases hfront with rfl | hmem
  · exact h
  -- Nothing is said of a node that is not plain.
  have hwritten (P : Sketch → Prop) : Written P (.node .type (front ++ parts)) :=
    fun hplain => absurd hmem (plain_append.1 (plain_node.1 hplain)).1.2
  cases form with
  | missing => trivial
  | wildcard => exact ⟨h.1, hwritten _⟩
  | named => exact hwritten _

end PatternSyntax.Proofs.TypeLanguage
