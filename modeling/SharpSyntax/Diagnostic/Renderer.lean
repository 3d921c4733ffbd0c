import SharpSyntax.Diagnostic

/-!
# Rendering diagnostics

A diagnostic is shown as a header and, for each label, the place, the source line behind a gutter
with its number, carets under the characters that the label covers, and the label's message. Notes
come last. Colours are control sequences around parts of the text; without them the text is the
same.

The lines come from texts that were added under their names, and otherwise from a reader of
files, which answers with no lines where there is no such file.
-/

namespace SharpSyntax

/-- The control sequences of a rendering. -/
structure Palette where
  severity : Severity → String
  bold : String
  blue : String
  reset : String

namespace Palette

/-- Colours for a terminal. -/
def colored : Palette where
  severity
    | .error => "\x1b[1;31m"
    | .warning => "\x1b[1;33m"
    | .note => "\x1b[1;36m"
  bold := "\x1b[1m"
  blue := "\x1b[1;34m"
  reset := "\x1b[0m"

/-- No colours. -/
def plain : Palette where
  severity _ := ""
  bold := ""
  blue := ""
  reset := ""

/-- Colours if they are wanted. -/
def choose (color : Bool) : Palette := if color then colored else plain

end Palette

/-- The lines of a named text, counted from 1. -/
abbrev LineSource := String → List String

/-- A number in four columns, or as many as it needs. -/
def gutterNumber (n : Int) : String :=
  let digits := toString n
  "".pushn ' ' (4 - digits.length) ++ digits

namespace Label

/-- The part of a rendering that a label makes. -/
def render (palette : Palette) (lines : LineSource) (severity : Severity) (label : Label) :
    List String :=
  let span := label.span
  let color := palette.severity severity
  let gutter (text : String) := s!"  {palette.blue}{text} |{palette.reset}"
  let place := s!"  {palette.blue}-->{palette.reset} {span.location}"
  let blank := gutter "  "
  let source :=
    if 1 ≤ span.startLine then
      match (lines span.file)[(span.startLine - 1).toNat]? with
      | some line => [s!"{gutter (gutterNumber span.startLine)} {line}"]
      | none => []
    else []
  let carets :=
    if span.startLine = span.endLine then
      let margin := "".pushn ' ' (span.startCol - 1).toNat
      let marks := "".pushn '^' (max 1 (span.endCol - span.startCol + 1)).toNat
      [s!"{blank} {margin}{color}{marks}{palette.reset}"]
    else []
  let message :=
    if label.message.isEmpty then []
    else [s!"{blank}   {color}{label.message}{palette.reset}"]
  [place, blank] ++ source ++ carets ++ message

end Label

namespace Diagnostic

/-- The rendering of a diagnostic, its lines joined by line feeds. -/
def render (palette : Palette) (lines : LineSource) (diagnostic : Diagnostic) : String :=
  let color := palette.severity diagnostic.severity
  let header :=
    s!"{color}{diagnostic.severity.word}[{diagnostic.code}]{palette.reset}" ++
      s!"{palette.bold}: {diagnostic.message}{palette.reset}"
  let labels := diagnostic.labels.flatMap (·.render palette lines diagnostic.severity)
  let notes := diagnostic.notes.map fun note => s!"  {palette.blue}={palette.reset} note: {note}"
  "\n".intercalate (header :: labels ++ notes)

end Diagnostic

end SharpSyntax
