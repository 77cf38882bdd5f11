import PatternSyntax.Text.IdentifierRanges
import PatternSyntax.Text.HiddenRanges

/-!
The classes of characters that source text is read and shown by.
-/

namespace PatternSyntax.Text

/-- The characters between tokens: tab, line feed, form feed, carriage return, space. -/
def isBlank (c : Char) : Bool :=
  c == '\t' || c == '\n' || c == '\x0c' || c == '\r' || c == ' '

/-- An ASCII letter. -/
def isLetter (c : Char) : Bool :=
  ('a' ≤ c && c ≤ 'z') || ('A' ≤ c && c ≤ 'Z')

/-- An ASCII decimal digit. -/
def isDigit (c : Char) : Bool :=
  '0' ≤ c && c ≤ '9'

/-- An ASCII hexadecimal digit. -/
def isHexDigit (c : Char) : Bool :=
  isDigit c || ('a' ≤ c && c ≤ 'f') || ('A' ≤ c && c ≤ 'F')

/-- Tables of the characters that words are made of, in all the scripts there are. Of the characters
outside ASCII nothing is said. -/
class WordTables where
  /-- Whether a word begins with a character. -/
  start : Char → Bool
  /-- Whether a word goes on with a character. -/
  part : Char → Bool
  start_of_ascii : ∀ c : Char, c.toNat < 128 → start c = isLetter c
  part_of_ascii : ∀ c : Char, c.toNat < 128 → part c = (isLetter c || isDigit c || c == '_')

/-- The tables of Unicode. -/
instance WordTables.unicode : WordTables where
  start c := isLetter c || startRanges.contains c
  part c :=
    isLetter c || startRanges.contains c || isDigit c || c == '_' || continueRanges.contains c
  start_of_ascii c hc := by
    rw [CodeRanges.contains_of_ascii (by decide +kernel) hc, Bool.or_false]
  part_of_ascii c hc := by
    have hstart : startRanges.contains c = false :=
      CodeRanges.contains_of_ascii (by decide +kernel) hc
    have hpart : continueRanges.contains c = false :=
      CodeRanges.contains_of_ascii (by decide +kernel) hc
    rw [hstart, hpart, Bool.or_false, Bool.or_false]

/-- The characters that begin an identifier. -/
def isIdentStart [WordTables] (c : Char) : Bool :=
  c == '_' || c == '$' || WordTables.start c

/-- The characters that go on with an identifier. -/
def isIdentPart [WordTables] (c : Char) : Bool :=
  c == '$' || WordTables.part c

/-- The characters that a listing shows by their number. -/
def isHidden (c : Char) : Bool :=
  c < ' ' || c == '\x7f' || hiddenRanges.contains c

end PatternSyntax.Text
