import PatternSyntax.CommandLine.Command
import PatternSyntax.Diagnostics
import PatternSyntax.Json.Report
import PatternSyntax.Tree.Listing

/-!
Carrying out commands.
-/

namespace PatternSyntax.CommandLine

/-- Why a file cannot be read. -/
inductive ReadFailure where
  | missing
  | directory
  /-- No file can have this name. -/
  | nulInName
  /-- Its bytes are not the UTF-8 of a text. -/
  | notText
  | other (reason : String)
deriving DecidableEq, Repr

/-- What a message says of the failure. -/
def ReadFailure.message : ReadFailure → String
  | missing => "No such file or directory (os error 2)"
  | directory => "Is a directory (os error 21)"
  | nulInName => "file name contained an unexpected NUL byte"
  | notText => "stream did not contain valid UTF-8"
  | other reason => reason

/-- Why a command cannot be carried out. -/
inductive Failure where
  | unreadable (path : String) (cause : ReadFailure)
  | fault (fault : Fault)
deriving DecidableEq, Repr

/-- What is said of the failure. -/
def Failure.message : Failure → String
  | unreadable path cause => "could not read `" ++ path ++ "`: " ++ cause.message
  | fault cause => cause.message

/-- What a command leaves behind. -/
structure Outcome where
  exitCode : Nat
  /-- The text for standard output. -/
  output : String
  /-- The text for standard error. -/
  notes : String
deriving DecidableEq, Repr

/-- A text and the end of its last line. -/
def lineOf (text : String) : String :=
  text ++ "\n"

/-- The text of an input, as it is. -/
def Input.read (input : Input) (readFile : String → Except ReadFailure ByteArray) :
    Except Failure String :=
  match input with
  | .text given => .ok given
  | .file path =>
    match readFile path with
    | .error cause => .error (.unreadable path cause)
    | .ok bytes =>
      match String.fromUTF8? bytes with
      | some content => .ok content
      | none => .error (.unreadable path .notText)

namespace Command

/-- The tree of a parse. Its errors are only noted, unless they are part of the document. -/
def showTree (parse : Parse) (asJson : Bool) : Outcome :=
  if asJson then ⟨0, lineOf parse.toJson.pretty, ""⟩
  else ⟨0, parse.tree.listing, if parse.errors.isEmpty then "" else lineOf parse.diagnostics⟩

/-- The errors of a parse, if there are any. -/
def showErrors (parse : Parse) : Outcome :=
  if parse.errors.isEmpty then ⟨0, "", ""⟩ else ⟨1, lineOf parse.diagnostics, ""⟩

/-- Carries a command out. -/
def run (command : Command) (readFile : String → Except ReadFailure ByteArray) :
    Except Failure Outcome := do
  let text ← command.input.read readFile
  let parse ← (Parse.ofText command.subject text).mapError .fault
  match command.action with
  | .parse => return showTree parse command.asJson
  | .check => return showErrors parse

end Command

end PatternSyntax.CommandLine
