import SharpSyntax.Diagnostic.Renderer
import SharpSyntax.Table
import SharpSyntax.Workspace

/-!
# Renderers

A renderer shows diagnostics of several source texts. It knows the lines of the texts that were
added to it; the lines of any other file are read from the workspace, and a file that is not there
has none.
-/

namespace SharpSyntax

/-- The colours and the known source texts of a rendering. -/
structure Renderer where
  color : Bool
  sources : Table (List String)
  workspace : Workspace

namespace Renderer

/-- A renderer that knows no source text. -/
def new (color : Bool) (workspace : Workspace) : Renderer where
  color := color
  sources := .empty
  workspace := workspace

/-- Makes the lines of a source text known under its name. -/
def addSource (renderer : Renderer) (source : SourceText) : Renderer :=
  { renderer with sources := renderer.sources.set source.name source.lines }

/-- The lines of a named text. -/
def linesOf (renderer : Renderer) (name : String) : Except FileError (List String) :=
  match renderer.sources.find? name with
  | some lines => .ok lines
  | none =>
    match renderer.workspace.readText (.ofText name) with
    | .ok text => .ok (SourceText.ofText text name).lines
    | .error .undecodable => .error .undecodable
    | .error _ => .ok []

/-- A diagnostic as it is shown, unless a file that one of its labels points to is unreadable. -/
def render (renderer : Renderer) (diagnostic : Diagnostic) : Except FileError String := do
  let known ← diagnostic.labels.mapM fun label =>
    return (label.span.file, ← renderer.linesOf label.span.file)
  let lines : LineSource := fun name => ((known.find? (·.1 = name)).map (·.2)).getD []
  return diagnostic.render (.choose renderer.color) lines

end Renderer

end SharpSyntax
