import SharpSyntax.Toml.Document
import SharpSyntax.Workspace

/-!
# Configuration

The file `csparse.toml` configures the directory it lies in and everything below. The nearest one
counts; without one the defaults do. Its table `parser` lists plugin references and its table
`output` says how trees are printed and whether diagnostics are coloured.

Values are kept as they were written. The list of plugins is whatever the value consists of: the
items of an array, the characters of a text, the keys of a table.
-/

namespace SharpSyntax

/-- How a tree is printed. -/
inductive TreeFormat where
  | tree
  | json
deriving DecidableEq, Repr

/-- The word for a format. -/
def TreeFormat.word : TreeFormat → String
  | .tree => "tree"
  | .json => "json"

/-- The format that a word names. -/
def TreeFormat.ofWord? : String → Option TreeFormat
  | "tree" => some .tree
  | "json" => some .json
  | _ => none

/-- What a configuration file says. -/
structure Config where
  plugins : List Toml.Value
  color : Toml.Value
  format : TreeFormat

/-- Why a configuration could not be had. -/
inductive ConfigError where
  | file (error : FileError)
  | malformed
  | notATable
  | notAList
  | badFormat (path shown : String)
deriving DecidableEq, Repr

/-- What a refused output format says. -/
def ConfigError.message? : ConfigError → Option String
  | .badFormat path shown => some s!"{path}: output.format must be 'tree' or 'json', got {shown}"
  | _ => none

namespace Config

/-- The name of configuration files. -/
def fileName : String := "csparse.toml"

/-- The configuration where there is no file. -/
def default : Config where
  plugins := []
  color := .boolean true
  format := .tree

/-- The entries of a value that has to be a table. -/
def tableEntries : Toml.Value → Except ConfigError (List Toml.Entry)
  | .table entries => .ok entries
  | _ => .error .notATable

/-- What a value consists of. -/
def listItems : Toml.Value → Except ConfigError (List Toml.Value)
  | .array items => .ok items
  | .string text => .ok (text.toList.map fun c => .string c.toString)
  | .table entries => .ok (entries.map fun entry => .string entry.key)
  | _ => .error .notAList

/-- The format that a value names. -/
def formatOf (file : String) : Toml.Value → Except ConfigError TreeFormat
  | .string word =>
    match TreeFormat.ofWord? word with
    | some format => .ok format
    | none => .error (.badFormat file (Toml.Value.string word).shown)
  | value => .error (.badFormat file value.shown)

/-- The configuration that a document gives; `file` is the name in messages. -/
def ofEntries (file : String) (entries : List Toml.Entry) : Except ConfigError Config := do
  let plugins ←
    match Toml.find? entries "parser" with
    | none => pure []
    | some parser =>
      match Toml.find? (← tableEntries parser) "plugins" with
      | none => pure []
      | some value => listItems value
  match Toml.find? entries "output" with
  | none => return { default with plugins := plugins }
  | some output =>
    let output ← tableEntries output
    let format ←
      match Toml.find? output "format" with
      | none => pure TreeFormat.tree
      | some value => formatOf file value
    return {
      plugins := plugins
      color := (Toml.find? output "color").getD (.boolean true)
      format := format }

/-- The configuration that the bytes of a file give. -/
def ofBytes (file : String) (bytes : ByteArray) : Except ConfigError Config :=
  match Text.decode? bytes with
  | none => .error (.file .undecodable)
  | some text =>
    match Toml.parse? text with
    | none => .error .malformed
    | some entries => ofEntries file entries

/-- The configuration in the file that a path leads to. -/
def load (workspace : Workspace) (path : Path) : Except ConfigError Config :=
  match workspace.readBytes path with
  | .error error => .error (.file error)
  | .ok bytes => ofBytes path.text bytes

/-- The nearest configuration file at a number of directories up from a place. -/
def findAbove (workspace : Workspace) (place : Place) : Nat → Option Place
  | 0 => none
  | n + 1 =>
    let candidate := place ++ [fileName]
    if (workspace.contentAt? candidate).isSome then some candidate
    else findAbove workspace place.dropLast n

/-- The nearest configuration file, from the directory of a path upwards. -/
def find? (workspace : Workspace) (start : Path) : Option Place :=
  let place := workspace.resolve start
  let directory := if workspace.isFile place then place.dropLast else place
  findAbove workspace directory (directory.length + 1)

/-- The configuration that applies to a path. -/
def applying (workspace : Workspace) (start : Path) : Except ConfigError Config :=
  match find? workspace start with
  | none => .ok default
  | some place =>
    match workspace.bytesAt place with
    | .error error => .error (.file error)
    | .ok bytes => ofBytes (workspace.display place) bytes

end Config

end SharpSyntax
