import PatternSyntax.CommandLine.Run

/-!
The program: reads the command line and at most one file, and prints.
-/

namespace PatternSyntax.CommandLine

/-- The help text. -/
def helpText : String :=
  "Usage: pattern-syntax <COMMAND>\n\n" ++
  "Commands:\n" ++
  "  parse  Parse the input and print its syntax tree\n" ++
  "  check  Parse the input and report syntax errors\n" ++
  "  help   Print this message\n\n" ++
  "Arguments:\n" ++
  "  [PATH]  The path of the file to parse\n\n" ++
  "Options:\n" ++
  "  -e, --expr <EXPR>  Parse the given text instead of a file\n" ++
  "  -k, --kind <KIND>  What the input holds [default: pattern]\n" ++
  "                     [possible values: pattern, expression, switch-label]\n" ++
  "      --json         Print the tree and errors as JSON (parse only)\n" ++
  "  -h, --help         Print help\n" ++
  "  -V, --version      Print version\n"

/-- What is said when words do not make a command. -/
def Notice.message : Notice → String
  | helpAsked | helpOffered => helpText
  | versionAsked => "pattern-syntax 0.1.0\n"
  | unknownCommand => "error: unrecognized subcommand\n"
  | unknownArgument => "error: unexpected argument\n"
  | missingArgument => "error: a path or --expr is required\n"
  | conflict => "error: an argument cannot be used here\n"
  | invalidValue => "error: invalid or missing value for an option\n"
  | needlessValue => "error: unexpected value for an option\n"

/-- Reads a file. -/
def readFile (path : String) : IO (Except ReadFailure ByteArray) := do
  if path.contains '\x00' then
    return .error .nulInName
  match ← (IO.FS.readBinFile path).toBaseIO with
  | .ok bytes => return .ok bytes
  | .error (.noFileOrDirectory ..) => return .error .missing
  | .error (.inappropriateType ..) => return .error .directory
  | .error cause => return .error (.other (toString cause))

/-- Says why words do not make a command. -/
def notify (notice : Notice) : IO UInt32 := do
  match notice with
  | .helpAsked | .versionAsked =>
    IO.print notice.message
    return 0
  | _ =>
    IO.eprint notice.message
    return 2

/-- Carries a command out. -/
def perform (command : Command) : IO UInt32 := do
  let content ←
    match command.input with
    | .file path => readFile path
    | .text _ => pure (.error .missing)
  match command.run fun _ => content with
  | .ok outcome =>
    IO.print outcome.output
    IO.eprint outcome.notes
    return outcome.exitCode.toUInt32
  | .error failure =>
    IO.eprintln failure.message
    return 2

end PatternSyntax.CommandLine

/-- Does what the words of the command line ask for. -/
def main (words : List String) : IO UInt32 := do
  match PatternSyntax.CommandLine.Command.ofWords words with
  | .ok command => PatternSyntax.CommandLine.perform command
  | .error notice => PatternSyntax.CommandLine.notify notice
