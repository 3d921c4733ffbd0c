import SharpSyntax.Text.Substitute
import SharpSyntax.Toml.Draft
import SharpSyntax.Toml.Scalar

/-!
# Reading TOML documents

A document is a sequence of lines, each blank, a header or a key with its value, and each with an
optional comment. The tables that headers and dotted keys lead to grow in a draft.
-/

namespace SharpSyntax.Toml

open Reader

/-- Takes a comment up to the end of its line. -/
def comment : Reader Unit := do
  if ← accept "#" then
    let body ← takeRun (· ≠ '\n')
    if body.any (isIllegal false) then failure

/-- Takes blanks, line feeds and comments, at most as many as there are rounds. -/
def layoutFrom : Nat → Reader Unit
  | 0 => return
  | n + 1 => do
    let _ ← takeRun fun c => c = ' ' || c = '\t' || c = '\n'
    if (← next?) = some '#' then
      comment
      layoutFrom n

/-- Takes all that may stand between the items of an array. -/
def layout : Reader Unit := fun cs => layoutFrom (cs.length + 1) cs

/-! ## Keys -/

/-- Whether a character may stand in a key without quotes. -/
def isBareKeyChar (c : Char) : Bool := c.isAlphanum || c = '-' || c = '_'

/-- One part of a key. -/
def keyPart : Reader String := do
  if ← accept "'" then literalString
  else if ← accept "\"" then basicString
  else
    let part ← takeRun isBareKeyChar
    if part.isEmpty then failure
    return String.ofList part

/-- The parts of a key from one of them on, with dots between. -/
def keyFrom : Nat → Reader (List String)
  | 0 => failure
  | n + 1 => do
    let part ← keyPart
    blanks
    if ← accept "." then
      blanks
      return part :: (← keyFrom n)
    else
      return [part]

/-- A key, and the blanks behind it. -/
def key : Reader (List String) := fun cs => keyFrom (cs.length + 1) cs

/-! ## Values -/

mutual

/-- A value. -/
def valueFrom : Nat → Reader Value
  | 0 => failure
  | n + 1 => do
    if ← accept "\"\"\"" then return .string (← longBasic)
    if ← accept "\"" then return .string (← basicString)
    if ← accept "'''" then return .string (← longLiteral)
    if ← accept "'" then return .string (← literalString)
    if ← accept "true" then return .boolean true
    if ← accept "false" then return .boolean false
    if ← accept "[" then
      layout
      return .array (← itemsFrom n)
    if ← accept "\x7b" then
      blanks
      if ← accept "\x7d" then return .table []
      let table ← inlineFrom n (.empty .passed)
      return .table (finishEntries table.entries)
    let (value, rest) ← StateT.lift (plainScalar? (← get))
    set rest
    return value

/-- The items of an array up to its closing bracket; a comma may stand behind the last. -/
def itemsFrom : Nat → Reader (List Value)
  | 0 => failure
  | n + 1 => do
    if ← accept "]" then return []
    let item ← valueFrom n
    layout
    if ← accept "]" then return [item]
    exactly ","
    layout
    return item :: (← itemsFrom n)

/-- The entries of an inline table up to its closing brace. -/
def inlineFrom : Nat → DraftTable → Reader DraftTable
  | 0, _ => failure
  | n + 1, table => do
    let path ← key
    exactly "="
    blanks
    let value ← valueFrom n
    let table ← StateT.lift (table.assign? [] 0 path value)
    blanks
    if ← accept "\x7d" then return table
    exactly ","
    blanks
    inlineFrom n table

end

/-- A value, with rounds enough for the text. -/
def value : Reader Value := fun cs => valueFrom (2 * cs.length + 2) cs

/-! ## Documents -/

/-- What has been read of a document: its tables, the path of the last header, and the number of
headers. -/
structure Progress where
  root : DraftTable
  header : List String
  part : Nat

/-- A header in single brackets, behind the opening one. -/
def tableHeader (progress : Progress) : Reader Progress := do
  blanks
  let path ← key
  let part := progress.part + 1
  let last ← StateT.lift path.getLast?
  let root ← StateT.lift
    (progress.root.change? DraftTable.enterAny (DraftTable.declare? last part) path.dropLast)
  exactly "]"
  return { root := root, header := path, part := part }

/-- A header in double brackets, behind the opening ones. -/
def arrayHeader (progress : Progress) : Reader Progress := do
  blanks
  let path ← key
  let last ← StateT.lift path.getLast?
  let root ← StateT.lift
    (progress.root.change? DraftTable.enterAny (DraftTable.append? last) path.dropLast)
  exactly "]]"
  return { root := root, header := path, part := progress.part + 1 }

/-- A key and its value. -/
def assignment (progress : Progress) : Reader Progress := do
  let path ← key
  exactly "="
  blanks
  let assigned ← value
  let root ← StateT.lift (progress.root.assign? progress.header progress.part path assigned)
  return { progress with root := root }

/-- What a line says, without its comment. -/
def line (progress : Progress) : Reader Progress := do
  match ← next? with
  | none | some '\n' | some '#' => return progress
  | some _ =>
    if ← accept "[[" then arrayHeader progress
    else if ← accept "[" then tableHeader progress
    else assignment progress

/-- The lines of a document. -/
def linesFrom : Nat → Progress → Reader Progress
  | 0, _ => failure
  | n + 1, progress => do
    blanks
    let progress ← line progress
    blanks
    comment
    match ← next? with
    | none => return progress
    | some _ =>
      exactly "\n"
      linesFrom n progress

/-- The entries of a document, or nothing if it is not a valid one. -/
def parse? (text : String) : Option (List Entry) :=
  let cs := Text.substitute ['\r', '\n'] ['\n'] text.toList
  let start : Progress := { root := .empty .declared, header := [], part := 0 }
  ((linesFrom (cs.length + 1) start).run cs).map fun (progress, _) =>
    finishEntries progress.root.entries

end SharpSyntax.Toml
