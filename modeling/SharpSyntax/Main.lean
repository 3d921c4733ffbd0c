import SharpSyntax.CommandLine.Run
import SharpSyntax.Plugin.Bundled

/-!
# The program

The program takes a snapshot of the files that its arguments speak of, carries out the run on it,
and prints what the run gave. A snapshot holds what lies on the way to each path, the source files
below it, and the configuration files of the directories around it; nothing else is looked at. The
modules that plugins can come from are the program's own.
-/

namespace SharpSyntax.CommandLine

/-- Text for a place, from the outermost directory on. -/
def onDisk (place : Place) : String := "/" ++ "/".intercalate place

/-- What stands at a place on disk, if anything. -/
def contentOnDisk? (place : Place) : IO (Option Content) := do
  let path := (← IO.currentDir) / onDisk place
  if ← path.isDir then return some .directory
  else if ← path.pathExists then return some (.file (← IO.FS.readBinFile path))
  else return none

/-- The entries at those of some places where something stands. -/
def entriesAt (places : List Place) : IO (List (Place × Content)) :=
  places.filterMapM fun place => return (← contentOnDisk? place).map (place, ·)

/-- The directories and the source files below a directory. Links to directories are not
followed. -/
partial def entriesBelow (place : Place) : IO (List (Place × Content)) := do
  let mut entries := []
  for entry in ← ((← IO.currentDir) / onDisk place).readDir do
    let inner := place ++ [entry.fileName]
    if (← entry.path.symlinkMetadata).type matches .dir then
      entries := entries ++ (inner, .directory) :: (← entriesBelow inner)
    else if isSourceName entry.fileName then
      entries := entries ++ (← entriesAt [inner])
  return entries

/-- The places on the way along a path, its end included. -/
def placesAlong (workspace : Workspace) (path : Path) : List Place :=
  (List.range (path.names.length + 1)).map fun n =>
    workspace.resolve { path with names := path.names.take n }

/-- The places of the configuration files that may apply to a path. -/
def configPlaces (workspace : Workspace) (path : Path) : List Place :=
  let place := workspace.resolve path
  (List.range (place.length + 1)).map fun n => place.take n ++ [Config.fileName]

/-- A snapshot with what a path leads to. -/
def addPath (workspace : Workspace) (path : Path) : IO Workspace := do
  let places := placesAlong workspace path ++ configPlaces workspace path
  let workspace := { workspace with entries := workspace.entries ++ (← entriesAt places) }
  match workspace.find? path with
  | some place =>
    if workspace.isDirectory place then
      return { workspace with entries := workspace.entries ++ (← entriesBelow place) }
    else return workspace
  | none => return workspace

/-- The snapshot for a run with arguments. -/
def takeSnapshot (arguments : List String) : IO Workspace := do
  let here := (Path.ofText (← IO.currentDir).toString).names
  ((pathsIn arguments).map Path.ofText).foldlM addPath ⟨"/", here, []⟩

/-- Prints entries to a stream, with colours if it is a terminal. -/
def printTo (stream : IO.FS.Stream) (entries : List String) : IO Unit := do
  stream.putStr (Outcome.printed (← stream.isTty) entries)
  stream.flush

end SharpSyntax.CommandLine

open SharpSyntax CommandLine in
/-- Runs the program with arguments. -/
def main (arguments : List String) : IO UInt32 := do
  let outcome := run Catalogue.bundled (← takeSnapshot arguments) arguments
  printTo (← IO.getStdout) outcome.output
  printTo (← IO.getStderr) outcome.errors
  if let .failed failure := outcome.ending then
    IO.eprintln s!"csparse: {repr failure}"
  return outcome.ending.exitCode
