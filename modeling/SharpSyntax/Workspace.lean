import SharpSyntax.Text.Parts
import SharpSyntax.Text.Unicode

/-!
# Workspaces

A workspace is a snapshot of files as a program started in one of their directories sees them.
Places in it are lists of names from its outermost directory inwards.

A path is text that somebody wrote. Going along a path from directory to directory, as opening a
file does, fails where a name is missing or is not a directory. Working a path out on paper takes
`..` back one name whether or not anything is there.
-/

namespace SharpSyntax

/-- A place: the names that lead to it from the outermost directory. -/
abbrev Place := List String

/-- What stands at a place. -/
inductive Content where
  | file (bytes : ByteArray)
  | directory

/-- A snapshot of files. `anchor` is written in front of the names of a place when it is shown. -/
structure Workspace where
  anchor : String
  here : Place
  entries : List (Place × Content)

/-- Why a file could not be read. -/
inductive FileError where
  | notFound
  | notDirectory
  | isDirectory
  | undecodable
deriving DecidableEq, Repr

/-- A written path without its needless parts: empty names and `.` are gone, `..` is kept. -/
structure Path where
  absolute : Bool
  names : List String
deriving DecidableEq, Repr

namespace Path

/-- The names of a written path, the empty ones included. -/
def split (text : String) : List String := Text.parts '/' text

/-- Whether a written path begins at the outermost directory. -/
def isAbsolute (text : String) : Bool := text.startsWith "/"

/-- A written path. -/
def ofText (text : String) : Path where
  absolute := isAbsolute text
  names := (split text).filter fun name => !name.isEmpty && name ≠ "."

/-- A path as it is shown. -/
def text (path : Path) : String :=
  let names := "/".intercalate path.names
  if path.absolute then "/" ++ names else if path.names.isEmpty then "." else names

/-- The path to something below a directory. -/
def below (path : Path) (names : List String) : Path :=
  { path with names := path.names ++ names }

end Path

namespace Workspace

/-- What stands at a place. Directories are there as soon as something lies in them. -/
def contentAt? (workspace : Workspace) (place : Place) : Option Content :=
  match workspace.entries.find? (·.1 = place) with
  | some entry => some entry.2
  | none =>
    if place.isPrefixOf workspace.here || workspace.entries.any (place.isPrefixOf ·.1) then
      some .directory
    else
      none

/-- Whether a place is a directory. -/
def isDirectory (workspace : Workspace) (place : Place) : Bool :=
  match workspace.contentAt? place with
  | some .directory => true
  | _ => false

/-- Whether a place is a file. -/
def isFile (workspace : Workspace) (place : Place) : Bool :=
  match workspace.contentAt? place with
  | some (.file _) => true
  | _ => false

/-- Goes along names from a place. Each name has to be in a directory, and there. -/
def walk (workspace : Workspace) (place : Place) : List String → Except FileError Place
  | [] => .ok place
  | name :: names =>
    if !workspace.isDirectory place then .error .notDirectory
    else if name.isEmpty || name = "." then workspace.walk place names
    else if name = ".." then workspace.walk place.dropLast names
    else
      let next := place ++ [name]
      if (workspace.contentAt? next).isSome then workspace.walk next names else .error .notFound

/-- The place where a path begins. -/
def start (workspace : Workspace) (absolute : Bool) : Place :=
  if absolute then [] else workspace.here

/-- The place that a written path leads to. -/
def locate? (workspace : Workspace) (text : String) : Option Place :=
  if text.isEmpty then none
  else (workspace.walk (workspace.start (Path.isAbsolute text)) (Path.split text)).toOption

/-- The place that a path leads to. -/
def find (workspace : Workspace) (path : Path) : Except FileError Place :=
  workspace.walk (workspace.start path.absolute) path.names

/-- The place that a path leads to, if it leads anywhere. -/
def find? (workspace : Workspace) (path : Path) : Option Place := (workspace.find path).toOption

/-- The place that a path stands for on paper. -/
def resolve (workspace : Workspace) (path : Path) : Place :=
  path.names.foldl (fun place name => if name = ".." then place.dropLast else place ++ [name])
    (workspace.start path.absolute)

/-- A place as it is shown. -/
def display (workspace : Workspace) (place : Place) : String :=
  workspace.anchor ++ "/".intercalate place

/-- The bytes of the file at a place. -/
def bytesAt (workspace : Workspace) (place : Place) : Except FileError ByteArray :=
  match workspace.contentAt? place with
  | some (.file bytes) => .ok bytes
  | some .directory => .error .isDirectory
  | none => .error .notFound

/-- The bytes of the file that a path leads to. -/
def readBytes (workspace : Workspace) (path : Path) : Except FileError ByteArray := do
  workspace.bytesAt (← workspace.find path)

/-- The text of the file that a path leads to. -/
def readText (workspace : Workspace) (path : Path) : Except FileError String := do
  match Text.decodeLines? (← workspace.readBytes path) with
  | some text => return text
  | none => throw .undecodable

/-- All places below a directory, each once: those of the entries and the directories around
them. -/
def placesBelow (workspace : Workspace) (place : Place) : List (List String) :=
  let inside := (workspace.entries.map (·.1)).filter fun entry =>
    place.isPrefixOf entry && place.length < entry.length
  let relative := inside.map (·.drop place.length)
  (relative.flatMap fun names =>
    (List.range names.length).map fun n => names.take (n + 1)).eraseDups

end Workspace

end SharpSyntax
