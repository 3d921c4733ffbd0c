import SharpSyntax.Parser.Basic
import SharpSyntax.Tree.Node

/-!
# Recursion and extension

The rules of the grammar call each other, and plugins add routines that call the rules. Each rule
is therefore written over `Rules`, a record of what it may call, and the record of one level is
built from the record of the level below. The number of levels bounds how deep constructs nest;
within a rule, `budget` bounds how often a loop goes round. A parse that runs out of either ends
in the fault `endless`, which a parse of enough levels meets only if a plugin calls itself without
end.
-/

namespace SharpSyntax

open Parse

/-- What a rule of the grammar may call. -/
structure Rules where
  budget : Nat
  expression : Nat → Attempt Node
  classDeclaration : List String → Attempt ClassDecl
  typeExpression : Attempt TypeExpr
  routine : String → Attempt Node

/-- The rules of a level without levels below. -/
def Rules.bottom (budget : Nat) : Rules where
  budget := budget
  expression _ := endless
  classDeclaration _ := endless
  typeExpression := endless
  routine _ := endless

/-- A routine of a plugin: it makes a node or declines. -/
abbrev Routine := Rules → Attempt Node

/-- What plugins add to a parser: routines tried where no rule of the grammar begins with the
token under the cursor, and routines under names. -/
structure Hooks where
  extensions : List Routine
  routines : Table Routine

/-- The hooks of a parser without plugins. -/
def Hooks.none : Hooks where
  extensions := []
  routines := .empty

/-- Calls a routine by its name. -/
def Hooks.call (hooks : Hooks) (rules : Rules) (name : String) : Attempt Node :=
  match hooks.routines.find? name with
  | some routine => routine rules
  | .none => stop (.missingName name)

end SharpSyntax
