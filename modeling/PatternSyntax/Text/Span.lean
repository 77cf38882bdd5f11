import PatternSyntax.Fault

/-!
Stretches of source text.
-/

namespace PatternSyntax.Text

/-- A stretch of text, by the offsets of its two ends. -/
structure Span where
  start : Nat
  stop : Nat
  start_le_stop : start ≤ stop
deriving DecidableEq, Repr

namespace Span

/-- The empty stretch at an offset. -/
def empty (offset : Nat) : Span :=
  ⟨offset, offset, Nat.le_refl offset⟩

/-- The stretch between two offsets, which have to be in order. -/
def between (start stop : Nat) : Except Fault Span :=
  if h : start ≤ stop then .ok ⟨start, stop, h⟩ else .error .reversedSpan

/-- How a span is written: its ends around two dots. -/
def display (span : Span) : String :=
  toString span.start ++ ".." ++ toString span.stop

end Span

instance : Inhabited Span := ⟨.empty 0⟩

end PatternSyntax.Text
