/-!
Lines and columns.
-/

namespace PatternSyntax.Text

/-- What stands before a place of a text: how many lines have ended, and how many characters are on
the place's own line. -/
structure Preceding where
  lines : Nat
  characters : Nat
deriving DecidableEq, Repr

namespace Preceding

/-- What stands behind a character, before which the rest stands. -/
def next (before : Preceding) (c : Char) : Preceding :=
  if c == '\n' then ⟨before.lines + 1, 0⟩ else ⟨before.lines, before.characters + 1⟩

/-- Goes over as many characters as `offset` bytes hold. Behind the end of the text there is no
further place, and an offset inside a character counts as the start of its line. -/
def advance (before : Preceding) (offset : Nat) : List Char → Preceding
  | [] => before
  | c :: rest =>
    if offset = 0 then before
    else if offset < c.utf8Size then ⟨before.lines, 0⟩
    else advance (before.next c) (offset - c.utf8Size) rest

/-- What stands before an offset of a text. -/
def ofOffset (text : String) (offset : Nat) : Preceding :=
  advance ⟨0, 0⟩ offset text.toList

/-- Whether there is a 32-bit number for the line and one for the column. Where there is not, a
program that checks its arithmetic stops. -/
def Fits (before : Preceding) : Prop :=
  before.lines + 1 < UInt32.size ∧ before.characters + 1 < UInt32.size

end Preceding

/-- A place in a text. Both numbers start with one, and columns count characters. They have 32 bits,
and the one behind the last is zero. -/
structure Position where
  lineNumber : UInt32
  columnNumber : UInt32
deriving DecidableEq, Repr

namespace Position

/-- The line, as a number of any size. -/
def line (here : Position) : Nat :=
  here.lineNumber.toNat

/-- The column, as a number of any size. -/
def column (here : Position) : Nat :=
  here.columnNumber.toNat

/-- The place behind what stands before it. -/
def behind (before : Preceding) : Position :=
  ⟨UInt32.ofNat before.lines + 1, UInt32.ofNat before.characters + 1⟩

/-- The place of an offset in a text. -/
def ofOffset (text : String) (offset : Nat) : Position :=
  behind (Preceding.ofOffset text offset)

/-- How a place is written: its line and column around a colon. -/
def display (here : Position) : String :=
  toString here.line ++ ":" ++ toString here.column

end Position

end PatternSyntax.Text
