import SharpSyntax.Toml.Value

/-!
# Documents under construction

While a document is read its tables may still grow. A draft is the tree of what has been read so
far, and knows how each table came about, which decides where it may be written to again.

* A table that only lies on the way to another may be declared by a header later.
* A table that a header declared may not be declared again, nor be extended by a dotted key.
* A table that a dotted key made or passed through may be extended by dotted keys of the same
  section; from the next header on it counts as declared.
* Values, inline tables and inline arrays among them, are closed.
* Each header in double brackets adds a table to an array; paths through the array lead to the
  table added last.
-/

namespace SharpSyntax.Toml

/-- How a table came about. -/
inductive Origin where
  | passed
  | dotted (part : Nat)
  | declared
deriving DecidableEq, Repr

mutual

/-- What stands behind a key. -/
inductive Draft where
  | value (value : Value)
  | table (table : DraftTable)
  | tables (earlier : List DraftTable) (last : DraftTable)

/-- A table that may still grow. -/
structure DraftTable where
  origin : Origin
  entries : List DraftEntry

/-- A named part of a table. -/
structure DraftEntry where
  key : String
  draft : Draft

end

/-- Whether a table counts as declared in a section. -/
def Origin.isDeclared (part : Nat) : Origin → Bool
  | .passed => false
  | .dotted made => made ≠ part
  | .declared => true

namespace DraftTable

/-- A table without entries. -/
def empty (origin : Origin) : DraftTable := ⟨origin, []⟩

/-- What stands behind a key. -/
def find? (table : DraftTable) (key : String) : Option Draft :=
  (table.entries.find? (·.key = key)).map DraftEntry.draft

/-- A list of entries with one written to it. -/
def write (key : String) (draft : Draft) : List DraftEntry → List DraftEntry
  | [] => [⟨key, draft⟩]
  | entry :: rest =>
    if entry.key = key then ⟨key, draft⟩ :: rest else entry :: write key draft rest

/-- The table with something behind a key. -/
def put (table : DraftTable) (key : String) (draft : Draft) : DraftTable :=
  { table with entries := write key draft table.entries }

/-- Puts a value behind a key that is still free. -/
def insert? (key : String) (value : Value) (table : DraftTable) : Option DraftTable :=
  match table.find? key with
  | none => some (table.put key (.value value))
  | some _ => none

/-- Changes the table at the end of a path, making the tables on the way that are missing. `enter`
says what becomes of the origin of a table on the way, or that it may not be entered. -/
def change? (enter : Origin → Option Origin) (edit : DraftTable → Option DraftTable) :
    List String → DraftTable → Option DraftTable
  | [], table => edit table
  | key :: path, table => do
    match table.find? key with
    | none =>
      let inner ← change? enter edit path (empty (← enter .passed))
      return table.put key (.table inner)
    | some (.table inner) =>
      let inner ← change? enter edit path { inner with origin := ← enter inner.origin }
      return table.put key (.table inner)
    | some (.tables earlier last) =>
      let last ← change? enter edit path { last with origin := ← enter last.origin }
      return table.put key (.tables earlier last)
    | some (.value _) => none

/-- Declares the table behind a key. -/
def declare? (key : String) (part : Nat) (table : DraftTable) : Option DraftTable :=
  match table.find? key with
  | none => some (table.put key (.table (empty .declared)))
  | some (.table inner) =>
    if inner.origin.isDeclared part then none
    else some (table.put key (.table { inner with origin := .declared }))
  | some (.tables ..) | some (.value _) => none

/-- Adds a table to the array behind a key. -/
def append? (key : String) (table : DraftTable) : Option DraftTable :=
  match table.find? key with
  | none => some (table.put key (.tables [] (empty .declared)))
  | some (.tables earlier last) =>
    some (table.put key (.tables (earlier ++ [last]) (empty .declared)))
  | some (.table _) | some (.value _) => none

/-- Enters any table without changing its origin. -/
def enterAny (origin : Origin) : Option Origin := some origin

/-- Enters a table by a dotted key in a section. -/
def enterDotted (part : Nat) (origin : Origin) : Option Origin :=
  if origin.isDeclared part then none else some (.dotted part)

/-- Writes a value under a dotted key, below the table of a header. -/
def assign? (header : List String) (part : Nat) (key : List String) (value : Value)
    (table : DraftTable) : Option DraftTable := do
  let last ← key.getLast?
  change? enterAny (change? (enterDotted part) (insert? last value) key.dropLast) header table

end DraftTable

/-! ## Finished documents -/

mutual

/-- What was read behind a key, as a value. -/
def Draft.finish : Draft → Value
  | .value value => value
  | .table ⟨_, entries⟩ => .table (finishEntries entries)
  | .tables earlier ⟨_, entries⟩ =>
    .array (finishTables earlier ++ [.table (finishEntries entries)])

/-- The entries of a table, finished. -/
def finishEntries : List DraftEntry → List Entry
  | [] => []
  | ⟨key, draft⟩ :: rest => ⟨key, draft.finish⟩ :: finishEntries rest

/-- Tables of an array, finished. -/
def finishTables : List DraftTable → List Value
  | [] => []
  | ⟨_, entries⟩ :: rest => .table (finishEntries entries) :: finishTables rest

end

end SharpSyntax.Toml
