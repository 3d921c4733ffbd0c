import SharpSyntax.Text.Lines

/-!
# Source text

A source text has a name and knows where its numbered lines begin, so that an offset can be told
as a line and a column. Offsets, columns and lengths count characters; lines and columns are
numbered from 1.

Line numbers count line feeds only. The lines shown to a reader are cut at every Unicode line
break; the two agree on texts whose only breaks are line feeds.
-/

namespace SharpSyntax

/-- A range inside a file: first and last character, both included. -/
structure Span where
  file : String
  startLine : Int
  startCol : Int
  endLine : Int
  endCol : Int
deriving DecidableEq, Repr

/-- Where a span begins, as `file:line:column`. -/
def Span.location (span : Span) : String :=
  s!"{span.file}:{span.startLine}:{span.startCol}"

/-- A line and a column, both from 1. -/
structure Position where
  line : Nat
  column : Nat
deriving DecidableEq, Repr

/-- A text with its name, its length and the offsets at which its numbered lines begin. -/
structure SourceText where
  name : String
  text : String
  size : Nat
  lineStarts : List Nat
  size_eq : size = text.toList.length
  lineStarts_eq : lineStarts = Text.lineStarts text.toList

namespace SourceText

/-- The source text of a named string. -/
def ofText (text name : String) : SourceText where
  name := name
  text := text
  size := text.toList.length
  lineStarts := Text.lineStarts text.toList
  size_eq := rfl
  lineStarts_eq := rfl

/-- The lines as they are shown. -/
def lines (source : SourceText) : List String :=
  (Text.splitLines source.text.toList).map String.ofList

/-- The line with a number, counted from 1; the empty text if there is none. -/
def lineAt (source : SourceText) (n : Int) : String :=
  if 1 ≤ n then (source.lines[(n - 1).toNat]?).getD "" else ""

/-- An offset moved into the text. -/
def clamp (source : SourceText) (offset : Int) : Nat :=
  min offset.toNat source.size

/-- The line and column of an offset: the line is the last one that begins at or before it. -/
def position (source : SourceText) (offset : Int) : Position :=
  let o := source.clamp offset
  let begun := source.lineStarts.takeWhile (· ≤ o)
  { line := begun.length, column := o - begun.getLast?.getD 0 + 1 }

/-- The span of `length` characters at an offset; a span covers at least one character. -/
def span (source : SourceText) (offset length : Int) : Span :=
  let first := source.position offset
  let last := source.position (offset + max length 1 - 1)
  { file := source.name
    startLine := first.line
    startCol := first.column
    endLine := last.line
    endCol := last.column }

end SourceText

end SharpSyntax
