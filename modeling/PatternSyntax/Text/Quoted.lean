/-!
Text between double quotes, on one line and without anything invisible.
-/

namespace PatternSyntax.Text.Quoted

/-- A character by its number: `\u`, and the hexadecimal digits between braces. -/
def numbered (c : Char) : List Char :=
  ['\\', 'u', '\x7b'] ++ Nat.toDigits 16 c.toNat ++ ['\x7d']

/-- How one character is written between the quotes. Those that are `hidden` are numbered. -/
def encodeChar (hidden : Char → Bool) (c : Char) : List Char :=
  if c == '\x00' then ['\\', '0']
  else if c == '\t' then ['\\', 't']
  else if c == '\r' then ['\\', 'r']
  else if c == '\n' then ['\\', 'n']
  else if c == '"' then ['\\', '"']
  else if c == '\\' then ['\\', '\\']
  else if hidden c then numbered c
  else [c]

/-- A text with its quotes. -/
def encode (hidden : Char → Bool) (text : String) : String :=
  String.ofList ('"' :: text.toList.flatMap (encodeChar hidden) ++ ['"'])

end PatternSyntax.Text.Quoted
