/-!
Sets of characters given by ranges of code points.
-/

namespace PatternSyntax.Text

/-- A set of code points, as inclusive ranges. -/
abbrev CodeRanges := List (Nat × Nat)

/-- Whether one of the ranges holds the code point of `c`. -/
def CodeRanges.contains (ranges : CodeRanges) (c : Char) : Bool :=
  ranges.any fun range => range.1 ≤ c.toNat && c.toNat ≤ range.2

theorem CodeRanges.contains_iff {ranges : CodeRanges} {c : Char} :
    ranges.contains c = true ↔ ∃ range ∈ ranges, range.1 ≤ c.toNat ∧ c.toNat ≤ range.2 := by
  simp [contains]

theorem CodeRanges.contains_of_ascii {ranges : CodeRanges}
    (hranges : ranges.all (fun range => 128 ≤ range.1) = true) {c : Char} (hc : c.toNat < 128) :
    ranges.contains c = false := by
  rw [← Bool.not_eq_true, contains_iff]
  rintro ⟨range, hmem, hle, -⟩
  have hrange := of_decide_eq_true (List.all_eq_true.1 hranges range hmem)
  omega

end PatternSyntax.Text
