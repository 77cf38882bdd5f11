import PatternSyntax.CommandLine.Word
import PatternSyntax.Parse

/-!
Commands, and how they are read from the words of a command line. A value that stands in a word of
its own is looked at only when the next option, the next plain word or the end is reached; so a
fault in a later word can hide one in an earlier value.
-/

namespace PatternSyntax.CommandLine

/-- Why words do not make a command. -/
inductive Notice where
  | helpAsked
  | versionAsked
  /-- There are no words, so help is shown. -/
  | helpOffered
  | unknownCommand
  | unknownArgument
  | missingArgument
  /-- Two arguments exclude each other, or one is given twice. -/
  | conflict
  /-- A value is missing, or it is none of those allowed. -/
  | invalidValue
  /-- There is a value where none is allowed. -/
  | needlessValue
deriving DecidableEq, Repr

/-- Where the text comes from. -/
inductive Input where
  | text (text : String)
  | file (path : String)
deriving DecidableEq, Repr

/-- What is done with a parse. -/
inductive Action where
  /-- Its tree is shown. -/
  | parse
  /-- Its errors are shown. -/
  | check
deriving DecidableEq, Repr

/-- A command. -/
structure Command where
  action : Action
  input : Input
  subject : Subject
  /-- Whether the tree is shown as a document. -/
  asJson : Bool
deriving DecidableEq, Repr

/-- The options that have a value. -/
inductive ValueOption where
  | expr
  | kind
deriving DecidableEq, Repr

/-- The options of a command. -/
inductive CommandOption where
  | valued (option : ValueOption)
  | json
  | help
deriving DecidableEq, Repr

namespace CommandOption

/-- The option with a name. Only trees can be shown as a document. -/
def ofName? (action : Action) (name : String) : Option CommandOption :=
  if name == "expr" then some (valued .expr)
  else if name == "kind" then some (valued .kind)
  else if name == "json" && action == .parse then some json
  else if name == "help" then some help
  else none

/-- The option with a letter. -/
def ofLetter? (letter : Char) : Option CommandOption :=
  if letter == 'e' then some (valued .expr)
  else if letter == 'k' then some (valued .kind)
  else if letter == 'h' then some help
  else none

end CommandOption

/-- What has been read of a command. -/
structure Draft where
  /-- The last option with a value, and its value once there is one, until it is settled. -/
  pending : Option (ValueOption × Option String)
  expr : Option String
  subject : Option Subject
  path : Option String
  asJson : Bool
deriving DecidableEq, Repr

namespace Draft

/-- Nothing read yet. -/
def empty : Draft :=
  ⟨none, none, none, none, false⟩

/-- Gives an option its value, which can be done once. -/
def assign (d : Draft) (option : ValueOption) (value : String) : Except Notice Draft :=
  match option with
  | .expr => if d.expr.isSome then .error .conflict else .ok { d with expr := some value }
  | .kind =>
    if d.subject.isSome then .error .conflict
    else
      match Subject.ofName? value with
      | some s => .ok { d with subject := some s }
      | none => .error .invalidValue

/-- Settles the pending option. -/
def settle (d : Draft) : Except Notice Draft :=
  match d.pending with
  | none => .ok d
  | some (_, none) => .error .invalidValue
  | some (option, some value) => { d with pending := none }.assign option value

/-- Goes on with an option and the value in its word. -/
def addOption (d : Draft) : CommandOption → Option String → Except Notice Draft
  | .valued option, some value => do (← d.settle).assign option value
  | .valued option, none => return { (← d.settle) with pending := some (option, none) }
  | .json, none => do
    let d ← d.settle
    if d.asJson then .error .conflict else return { d with asJson := true }
  | .help, none => do
    let _ ← d.settle
    .error .helpAsked
  | .json, some _ => .error .needlessValue
  | .help, some _ => .error .needlessValue

/-- Goes on with a word that is no option: there is one path. -/
def addPath (d : Draft) (word : String) : Except Notice Draft :=
  if d.path.isSome then .error .unknownArgument
  else return { (← d.settle) with path := some word }

/-- Goes on with the words behind two dashes. -/
def addPaths (d : Draft) (words : List String) : Except Notice Draft :=
  words.foldlM addPath d

/-- Goes on with a word that looks like no option: a value if one is expected, or else the path. -/
def addPlain (d : Draft) (word : String) : Except Notice Draft :=
  match d.pending with
  | some (option, none) => .ok { d with pending := some (option, some word) }
  | _ => d.addPath word

/-- Goes on with all words of a command. -/
def read (action : Action) (d : Draft) : List String → Except Notice Draft
  | [] => d.settle
  | word :: rest =>
    match Word.ofString word with
    | .dashes => do (← d.addPaths rest).settle
    | .long name value =>
      match CommandOption.ofName? action name with
      | some option => do read action (← d.addOption option value) rest
      | none => .error .unknownArgument
    | .short letter more =>
      match CommandOption.ofLetter? letter with
      | some .help => do read action (← d.addOption .help none) rest
      | some option => do read action (← d.addOption option (Word.attached more)) rest
      | none => .error .unknownArgument
    | .plain => do read action (← d.addPlain word) rest

/-- The command that was read. Its text is given in one way. -/
def command (d : Draft) (action : Action) : Except Notice Command :=
  let subject := d.subject.getD .pattern
  match d.expr, d.path with
  | some text, none => .ok ⟨action, .text text, subject, d.asJson⟩
  | none, some path => .ok ⟨action, .file path, subject, d.asJson⟩
  | some _, some _ => .error .conflict
  | none, none => .error .missingArgument

end Draft

namespace Command

/-- The words that commands begin with. -/
def names : List String :=
  ["parse", "check", "help"]

/-- What help is asked for: everything, or one command. -/
def helpTopic : List String → Notice
  | [] => .helpAsked
  | [topic] => if names.contains topic then .helpAsked else .unknownCommand
  | _ => .unknownCommand

/-- An option in front of the command. -/
def leadingOption (asked : Notice) (value : Option String) : Notice :=
  if value.isSome then .needlessValue else asked

/-- The command that words make. -/
def ofWords : List String → Except Notice Command
  | [] => .error .helpOffered
  | word :: rest =>
    match Word.ofString word with
    | .dashes =>
      match rest with
      | [] => .error .helpOffered
      | next :: _ => .error (if names.contains next then .unknownArgument else .unknownCommand)
    | .long name value =>
      if name == "help" then .error (leadingOption .helpAsked value)
      else if name == "version" then .error (leadingOption .versionAsked value)
      else .error .unknownArgument
    | .short letter _ =>
      if letter == 'h' then .error .helpAsked
      else if letter == 'V' then .error .versionAsked
      else .error .unknownArgument
    | .plain =>
      if word == "parse" then do (← Draft.empty.read .parse rest).command .parse
      else if word == "check" then do (← Draft.empty.read .check rest).command .check
      else if word == "help" then .error (helpTopic rest)
      else .error .unknownCommand

end Command

end PatternSyntax.CommandLine
