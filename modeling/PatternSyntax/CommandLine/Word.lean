/-!
The words of a command line, by their look.
-/

namespace PatternSyntax.CommandLine

/-- What a word looks like. -/
inductive Word where
  /-- Two dashes alone: what follows is no option, whatever it looks like. -/
  | dashes
  /-- Two dashes and a name, and maybe a value behind an equals sign. -/
  | long (name : String) (value : Option String)
  /-- A dash and a letter, and maybe more. -/
  | short (letter : Char) (rest : List Char)
  /-- Anything else, also a dash alone. -/
  | plain
deriving DecidableEq, Repr

namespace Word

/-- A name and what follows the first equals sign behind it. -/
def splitName (text : List Char) : Word :=
  match text.dropWhile (· != '=') with
  | [] => long (String.ofList text) none
  | _ :: value => long (String.ofList (text.takeWhile (· != '='))) (some (String.ofList value))

/-- What a word looks like. -/
def ofString (text : String) : Word :=
  match text.toList with
  | ['-', '-'] => dashes
  | '-' :: '-' :: rest => splitName rest
  | '-' :: letter :: rest => short letter rest
  | _ => plain

/-- The value that follows a letter in the same word. An equals sign in front of it is dropped. -/
def attached : List Char → Option String
  | [] => none
  | '=' :: value => some (String.ofList value)
  | value => some (String.ofList value)

end Word

end PatternSyntax.CommandLine
