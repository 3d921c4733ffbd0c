/-!
# Tables

A table maps names to values and remembers the order in which the names came. Writing a name a
second time changes its value and leaves it in its place.
-/

namespace SharpSyntax

/-- Values by name, in the order in which the names were first written. -/
structure Table (α : Type u) where
  entries : List (String × α)

namespace Table

variable {α : Type u}

/-- The table without entries. -/
def empty : Table α := ⟨[]⟩

/-- A list of entries with one more written to it. -/
def write (name : String) (value : α) : List (String × α) → List (String × α)
  | [] => [(name, value)]
  | entry :: rest =>
    if entry.1 = name then (name, value) :: rest else entry :: write name value rest

/-- The table after a name is written. -/
def set (table : Table α) (name : String) (value : α) : Table α :=
  ⟨write name value table.entries⟩

/-- The table that a list of entries writes, one after the other. -/
def ofList (entries : List (String × α)) : Table α :=
  entries.foldl (fun table entry => table.set entry.1 entry.2) empty

/-- The table without a name. -/
def erase (table : Table α) (name : String) : Table α :=
  ⟨table.entries.filter (·.1 ≠ name)⟩

/-- The value of a name. -/
def find? (table : Table α) (name : String) : Option α :=
  (table.entries.find? (·.1 = name)).map (·.2)

@[simp] theorem find?_empty (name : String) : (empty : Table α).find? name = none := rfl

theorem find?_cons (entry : String × α) (rest : List (String × α)) (name : String) :
    (Table.mk (entry :: rest)).find? name =
      if entry.1 = name then some entry.2 else (Table.mk rest).find? name := by
  by_cases h : entry.1 = name <;> simp [find?, h]

/-- A name that is written has the value that was written; other names keep theirs. -/
theorem find?_set (table : Table α) (name other : String) (value : α) :
    (table.set name value).find? other =
      if name = other then some value else table.find? other := by
  obtain ⟨entries⟩ := table
  rw [set]
  induction entries with
  | nil => rw [write, find?_cons]
  | cons entry rest ih =>
      rw [write, find?_cons]
      by_cases hentry : entry.1 = name
      · rw [if_pos hentry, find?_cons, hentry]
        split <;> rfl
      · rw [if_neg hentry, find?_cons, ih]
        split
        · next hother => rw [if_neg fun h => hentry (hother.trans h.symm)]
        · rfl

/-- A name that is erased has no value; other names keep theirs. -/
theorem find?_erase (table : Table α) (name other : String) :
    (table.erase name).find? other = if name = other then none else table.find? other := by
  obtain ⟨entries⟩ := table
  rw [erase]
  induction entries with
  | nil => split <;> rfl
  | cons entry rest ih =>
      rw [find?_cons]
      by_cases hentry : entry.1 = name
      · rw [List.filter_cons_of_neg (by simpa using hentry), ih, hentry]
        split <;> rfl
      · rw [List.filter_cons_of_pos (by simpa using hentry), find?_cons, ih]
        split
        · next hother => rw [if_neg fun h => hentry (hother.trans h.symm)]
        · rfl

/-- The names, in order. -/
def names (table : Table α) : List String := table.entries.map (·.1)

/-- The values, in order. -/
def values (table : Table α) : List α := table.entries.map (·.2)

end Table

end SharpSyntax
