/-!
JSON documents of the plain sort: natural numbers, strings, arrays and objects; and how they are
laid out over lines.
-/

namespace PatternSyntax

/-- A JSON value. The fields of an object keep their order. -/
inductive Json where
  | number (n : Nat)
  | string (text : String)
  | array (items : List Json)
  | object (fields : List (String × Json))
deriving Repr, Inhabited

namespace Json

/-- A hexadecimal digit in small letters. -/
def hexDigit (n : Nat) : Char :=
  Nat.digitChar (n % 16)

/-- How a character is written in a string. Quotes, backslashes and control characters are escaped,
the common ones of these by a letter. -/
def escape (c : Char) : List Char :=
  if c == '"' then ['\\', '"']
  else if c == '\\' then ['\\', '\\']
  else if c == '\x08' then ['\\', 'b']
  else if c == '\t' then ['\\', 't']
  else if c == '\n' then ['\\', 'n']
  else if c == '\x0c' then ['\\', 'f']
  else if c == '\r' then ['\\', 'r']
  else if c < ' ' then ['\\', 'u', '0', '0', hexDigit (c.toNat / 16), hexDigit c.toNat]
  else [c]

/-- A string with its quotes. -/
def quote (text : String) : List Char :=
  '"' :: text.toList.flatMap escape ++ ['"']

/-- The start of a line at a depth. -/
def newLine (depth : Nat) : List Char :=
  '\n' :: List.replicate (2 * depth) ' '

/-- The name of a field, up to its value. -/
def label (name : String) : List Char :=
  quote name ++ [':', ' ']

mutual

/-- The text of a value whose line has the given depth. Each item of an array and each field of an
object has a line of its own, unless there is none. -/
def prettyAt (depth : Nat) : Json → List Char
  | number n => Nat.toDigits 10 n
  | string text => quote text
  | array [] => ['[', ']']
  | array (first :: rest) =>
    '[' :: newLine (depth + 1) ++ first.prettyAt (depth + 1) ++ prettyItems (depth + 1) rest ++
      newLine depth ++ [']']
  | object [] => ['\x7b', '\x7d']
  | object ((name, first) :: rest) =>
    '\x7b' :: newLine (depth + 1) ++ label name ++ first.prettyAt (depth + 1) ++
      prettyFields (depth + 1) rest ++ newLine depth ++ ['\x7d']

/-- The items of an array behind its first one. -/
def prettyItems (depth : Nat) : List Json → List Char
  | [] => []
  | item :: rest => ',' :: newLine depth ++ item.prettyAt depth ++ prettyItems depth rest

/-- The fields of an object behind its first one. -/
def prettyFields (depth : Nat) : List (String × Json) → List Char
  | [] => []
  | (name, value) :: rest =>
    ',' :: newLine depth ++ label name ++ value.prettyAt depth ++ prettyFields depth rest

end

/-- The text of a document. -/
def pretty (value : Json) : String :=
  String.ofList (value.prettyAt 0)

end Json

end PatternSyntax
