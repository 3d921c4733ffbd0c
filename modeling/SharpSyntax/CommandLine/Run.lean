import SharpSyntax.CommandLine.Request
import SharpSyntax.Failure
import SharpSyntax.Json.Printer
import SharpSyntax.Renderer
import SharpSyntax.Text.Control
import SharpSyntax.Tree.Json
import SharpSyntax.Tree.Outline

/-!
# Runs

A run prints tokens or trees and tells errors apart from them. It ends with a code: 0 if nothing
was reported, 1 if something was, 2 if its arguments made no request. A failure that no message
accounts for ends it with what was printed so far.

Every source text is parsed by one frontend and shown by one renderer, which learns each text in
turn. The errors of a text are told whether or not others have any.
-/

namespace SharpSyntax.CommandLine

/-- How a run ended. -/
inductive Ending where
  | finished (code : Nat)
  | failed (failure : Failure)
deriving DecidableEq, Repr

/-- The code of a process that ended like this. -/
def Ending.exitCode : Ending → UInt32
  | .finished code => code.toUInt32
  | .failed _ => 1

/-- What a run printed, entry by entry, and how it ended. -/
structure Outcome where
  output : List String
  errors : List String
  ending : Ending

namespace Outcome

/-- A run that printed nothing and failed. -/
def failed (failure : Failure) : Outcome := ⟨[], [], .failed failure⟩

/-- Printed entries as one text; where colours do not belong, control sequences are taken out. -/
def printed (color : Bool) (entries : List String) : String :=
  String.join (entries.map fun entry => (if color then entry else Text.plain entry) ++ "\n")

end Outcome

/-- What a source text gave: its tree if it has tokens, and the renderer that knows it. -/
structure FileReport where
  result : Option ParseResult
  renderer : Renderer

/-- Whether nothing was reported about a source text. -/
def FileReport.ok (report : FileReport) : Bool :=
  match report.result with
  | some result => result.ok
  | none => false

/-- Renders diagnostics one after the other, up to one that cannot be shown. -/
def renderAll (renderer : Renderer) : List Diagnostic → List String × Except Failure Unit
  | [] => ([], .ok ())
  | diagnostic :: diagnostics =>
    match renderer.render diagnostic with
    | .error error => ([], .error (.file error))
    | .ok shown =>
      let (more, ending) := renderAll renderer diagnostics
      (shown :: more, ending)

/-- Parses the file that a path leads to: what is told about it, and what it gave. -/
def parseFile (frontend : Frontend) (renderer : Renderer) (path : Path) :
    List String × Except Failure FileReport :=
  match renderer.workspace.readText path with
  | .error error => ([], .error (.file error))
  | .ok text =>
    let source := SourceText.ofText text path.text
    let renderer := renderer.addSource source
    match frontend.parse source with
    | .ok result =>
      let (errors, ending) := renderAll renderer result.diagnostics
      (errors, ending.map fun _ => { result := some result, renderer := renderer })
    | .error (.lex error) =>
      let (errors, ending) := renderAll renderer [error.diagnostic]
      (errors, ending.map fun _ => { result := none, renderer := renderer })
    | .error error => ([], .error (.analysis error))

/-- The configuration that applies to a path, and the frontend with its plugins and more. -/
def prepare (catalogue : Catalogue) (workspace : Workspace) (path : Path)
    (plugins : List String) : Except Failure (Config × Frontend) := do
  let config ← (Config.applying workspace path).mapError Failure.config
  let frontend ← Frontend.ofReferences catalogue (config.plugins ++ plugins.map .string)
  return (config, frontend)

/-- Runs with a configuration and a frontend. A plugin reference that leads nowhere is told. -/
def withFrontend (catalogue : Catalogue) (workspace : Workspace) (path : Path)
    (plugins : List String) (run : Config → Frontend → Outcome) : Outcome :=
  match prepare catalogue workspace path plugins with
  | .ok (config, frontend) => run config frontend
  | .error (.plugin error) =>
    if error.isUnresolved then ⟨[], ["error: " ++ error.message], .finished 1⟩
    else .failed (.plugin error)
  | .error failure => .failed failure

/-! ## Commands -/

/-- A text moved to the right end of a column. -/
def padLeft (width : Nat) (text : String) : String := "".pushn ' ' (width - text.length) ++ text

/-- A text at the left end of a column. -/
def padRight (width : Nat) (text : String) : String := text.pushn ' ' (width - text.length)

/-- A token with its offset and kind in columns. -/
def tokenLine (token : Token) : String :=
  padLeft 6 (toString token.offset) ++ " " ++ padRight 16 token.kind.name ++ " " ++ token.text

/-- Prints the tokens of a file. -/
def lex (catalogue : Catalogue) (workspace : Workspace) (file : String) (plugins : List String) :
    Outcome :=
  withFrontend catalogue workspace (.ofText file) plugins fun config frontend =>
    match workspace.readText (.ofText file) with
    | .error error => .failed (.file error)
    | .ok text =>
      let source := SourceText.ofText text file
      match frontend.lex source with
      | .ok tokens => ⟨tokens.map tokenLine, [], .finished 0⟩
      | .error (.lex error) =>
        let renderer := (Renderer.new config.color.isTruthy workspace).addSource source
        match renderAll renderer [error.diagnostic] with
        | (errors, .ok ()) => ⟨[], errors, .finished 1⟩
        | (errors, .error failure) => ⟨[], errors, .failed failure⟩
      | .error error => .failed (.analysis error)

/-- A tree in a format. -/
def printTree (program : Program) : TreeFormat → List String
  | .tree => program.outline
  | .json => [Json.print 0 program.toJson]

/-- Prints the tree of a file. -/
def parse (catalogue : Catalogue) (workspace : Workspace) (file : String)
    (format : Option TreeFormat) (plugins : List String) : Outcome :=
  withFrontend catalogue workspace (.ofText file) plugins fun config frontend =>
    match parseFile frontend (.new config.color.isTruthy workspace) (.ofText file) with
    | (errors, .error failure) => ⟨[], errors, .failed failure⟩
    | (errors, .ok report) =>
      let output :=
        match report.result with
        | some result => printTree result.program (format.getD config.format)
        | none => []
      ⟨output, errors, .finished (if report.ok then 0 else 1)⟩

/-- Whether a name is one of a source file. -/
def isSourceName (name : String) : Bool := name.endsWith ".cs"

/-- Whether one list of names comes before another or is the same. -/
def namesLe : List String → List String → Bool
  | [], _ => true
  | _ :: _, [] => false
  | a :: as, b :: bs => if a = b then namesLe as bs else a < b

/-- The source files that a path stands for: itself, or all below it in the order of the names on
the way to them. -/
def sourceFiles (workspace : Workspace) (path : Path) : List Path :=
  match workspace.find? path with
  | none => [path]
  | some place =>
    if workspace.isDirectory place then
      let below := (workspace.placesBelow place).filter fun names =>
        (names.getLast?.map isSourceName).getD false
      (below.mergeSort namesLe).map path.below
    else [path]

/-- Parses files one after the other: what is told about them, and whether all are free of
errors. -/
def checkFiles (frontend : Frontend) (renderer : Renderer) :
    List Path → List String × Except Failure Bool
  | [] => ([], .ok true)
  | path :: paths =>
    match parseFile frontend renderer path with
    | (errors, .error failure) => (errors, .error failure)
    | (errors, .ok report) =>
      let (more, rest) := checkFiles frontend report.renderer paths
      (errors ++ more, rest.map fun ok => report.ok && ok)

/-- Parses all source files that a path stands for. -/
def check (catalogue : Catalogue) (workspace : Workspace) (path : String)
    (plugins : List String) : Outcome :=
  withFrontend catalogue workspace (.ofText path) plugins fun config frontend =>
    let files := sourceFiles workspace (.ofText path)
    if files.isEmpty then ⟨[], ["warning: no .cs files found"], .finished 0⟩
    else
      let (errors, ending) := checkFiles frontend (.new config.color.isTruthy workspace) files
      match ending with
      | .error failure => ⟨[], errors, .failed failure⟩
      | .ok false => ⟨[], errors, .finished 1⟩
      | .ok true => ⟨[s!"checked {files.length} file(s): no errors"], errors, .finished 0⟩

/-- The version of the program. -/
def programVersion : String := "0.1.0"

/-- How the program is used. -/
def usage : List String :=
  ["usage: csparse lex FILE [-p MODULE:ATTR]...",
    "       csparse parse FILE [--format tree|json] [-p MODULE:ATTR]...",
    "       csparse check [PATH] [-p MODULE:ATTR]...",
    "       csparse --version | --help"]

/-- Carries out a request. -/
def Request.run (catalogue : Catalogue) (workspace : Workspace) : Request → Outcome
  | .version => ⟨["csparse, version " ++ programVersion], [], .finished 0⟩
  | .help => ⟨usage, [], .finished 0⟩
  | .lex file plugins => CommandLine.lex catalogue workspace file plugins
  | .parse file format plugins => CommandLine.parse catalogue workspace file format plugins
  | .check path plugins => CommandLine.check catalogue workspace path plugins

/-- A run with arguments. -/
def run (catalogue : Catalogue) (workspace : Workspace) (arguments : List String) : Outcome :=
  match Request.ofArguments? workspace arguments with
  | some request => request.run catalogue workspace
  | none => ⟨[], usage, .finished 2⟩

end SharpSyntax.CommandLine
