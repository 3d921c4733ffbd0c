import SharpSyntax.Config

/-!
# Requests

The arguments of a run, read as a request. Options stand anywhere among the arguments of a command
until `--`; the value of an option stands behind it or, after `=`, with it, and the value of a short
option may directly follow its letter. Of an option given twice the later value counts, except that
plugins add up.
-/

namespace SharpSyntax.CommandLine

/-- What a run is asked to do. -/
inductive Request where
  | version
  | help
  | lex (file : String) (plugins : List String)
  | parse (file : String) (format : Option TreeFormat) (plugins : List String)
  | check (path : String) (plugins : List String)
deriving DecidableEq, Repr

/-- The commands. -/
inductive Command where
  | lex
  | parse
  | check
deriving DecidableEq, Repr

/-- The command of a name. -/
def Command.named? : String → Option Command
  | "lex" => some .lex
  | "parse" => some .parse
  | "check" => some .check
  | _ => none

/-- The options of commands. -/
inductive CommandOption where
  | plugin
  | format
  | help
deriving DecidableEq, Repr

/-- The options that a command has, by their long names. -/
def Command.long? (command : Command) : String → Option CommandOption
  | "--plugin" => some .plugin
  | "--format" => if command = .parse then some .format else none
  | "--help" => some .help
  | _ => none

/-- The arguments of a command, sorted. -/
structure Arguments where
  positional : List String
  plugins : List String
  formats : List String
  help : Bool

namespace Arguments

/-- No arguments. -/
def none : Arguments := ⟨[], [], [], false⟩

/-- One more argument in front. -/
def addPositional (value : String) (arguments : Arguments) : Arguments :=
  { arguments with positional := value :: arguments.positional }

/-- One more option with a value in front. -/
def addOption (name : CommandOption) (value : String) (arguments : Arguments) : Arguments :=
  match name with
  | .plugin => { arguments with plugins := value :: arguments.plugins }
  | .format => { arguments with formats := value :: arguments.formats }
  | .help => { arguments with help := true }

end Arguments

/-- The text in front of the first `=` and the text behind it, if there is one. -/
def splitValue (argument : String) : String × Option String :=
  let cs := argument.toList
  let name := String.ofList (cs.takeWhile (· ≠ '='))
  match cs.dropWhile (· ≠ '=') with
  | _ :: value => (name, some (String.ofList value))
  | [] => (name, Option.none)

/-- The arguments of a command, or nothing where an option is unknown, lacks its value, or has one
that it does not take. -/
def sortArguments (command : Command) : List String → Option Arguments
  | [] => some .none
  | argument :: rest =>
    if argument = "--" then some { Arguments.none with positional := rest }
    else if argument.startsWith "--" then
      let (name, attached) := splitValue argument
      match command.long? name, attached with
      | Option.none, _ => Option.none
      | some .help, some _ => Option.none
      | some .help, Option.none => (sortArguments command rest).map (·.addOption .help "")
      | some option, some value => (sortArguments command rest).map (·.addOption option value)
      | some option, Option.none =>
        match rest with
        | value :: rest => (sortArguments command rest).map (·.addOption option value)
        | [] => Option.none
    else if argument = "-p" then
      match rest with
      | value :: rest => (sortArguments command rest).map (·.addOption .plugin value)
      | [] => Option.none
    else if argument.startsWith "-p" then
      let value := String.ofList (argument.toList.drop 2)
      (sortArguments command rest).map (·.addOption .plugin value)
    else if argument.startsWith "-" && argument ≠ "-" then Option.none
    else (sortArguments command rest).map (·.addPositional argument)

/-- The format that the last of the given words names; none if no word is given. -/
def chosenFormat? (words : List String) : Option (Option TreeFormat) :=
  match words.getLast? with
  | Option.none => some Option.none
  | some word => (TreeFormat.ofWord? word).map some

/-- Whether a written path leads to a file. -/
def namesFile (workspace : Workspace) (text : String) : Bool :=
  match workspace.locate? text with
  | some place => workspace.isFile place
  | Option.none => false

/-- The request of a command with its arguments, if they fit it and the paths among them exist. -/
def Command.request? (command : Command) (workspace : Workspace) (arguments : Arguments) :
    Option Request :=
  if arguments.help then some .help
  else
    match command, arguments.positional, chosenFormat? arguments.formats with
    | .lex, [file], some _ =>
      if namesFile workspace file then some (.lex file arguments.plugins) else Option.none
    | .parse, [file], some format =>
      if namesFile workspace file then some (.parse file format arguments.plugins)
      else Option.none
    | .check, [], some _ => some (.check "." arguments.plugins)
    | .check, [path], some _ =>
      if (workspace.locate? path).isSome then some (.check path arguments.plugins)
      else Option.none
    | _, _, _ => Option.none

/-- The command that a run is started with, and its arguments. -/
def commandIn? : List String → Option (Command × Arguments)
  | "--" :: name :: rest | name :: rest => do
    let command ← Command.named? name
    return (command, ← sortArguments command rest)
  | [] => Option.none

/-- The paths that the arguments of a run speak of. -/
def pathsIn (arguments : List String) : List String :=
  match commandIn? arguments with
  | Option.none => []
  | some (command, found) =>
    if command = .check && found.positional.isEmpty then ["."] else found.positional

/-- The request of a run, or nothing where its arguments make none. -/
def Request.ofArguments? (workspace : Workspace) : List String → Option Request
  | "--version" :: rest | "--" :: "--version" :: rest =>
    if optionsOnly rest then some .version else Option.none
  | "--help" :: rest | "--" :: "--help" :: rest =>
    if optionsOnly rest then some .help else Option.none
  | arguments => do
    let (command, found) ← commandIn? arguments
    command.request? workspace found
where
  /-- Whether the options in front of a command are known. -/
  optionsOnly : List String → Bool
    | [] => true
    | argument :: rest =>
      if argument = "--version" || argument = "--help" then optionsOnly rest
      else !(argument.startsWith "-") || argument = "-" || argument = "--"

end SharpSyntax.CommandLine
