import SharpSyntax.Frontend
import SharpSyntax.Text.Quoted

/-!
# Catalogues of plugins

A reference names a module and, behind a colon, one of its attributes; without one the attribute is
`plugin`. Which modules there are, and what importing one of them gives, is not up to the program: a
catalogue says so, and whatever loads plugins is given one.
-/

namespace SharpSyntax

namespace Catalogue

/-- What an attribute of a module is: something that can be called with a frontend, or not. -/
inductive Entry where
  | factory (make : Frontend → Offer)
  | value

/-- A module, by its attributes. -/
structure Module where
  attributes : List (String × Entry)

/-- Why a module could not be imported. -/
inductive ImportFailure where
  | notImported (reason : String)
  | raised (typeName : String)
deriving DecidableEq, Repr

end Catalogue

/-- What comes of importing modules, by their names. -/
structure Catalogue where
  importModule : String → Except Catalogue.ImportFailure Catalogue.Module

namespace Catalogue

/-- Why a reference names no factory. -/
inductive LoadError where
  | notImported (target reason : String)
  | noAttribute (target item : String)
  | notCallable (reference : String)
  | emptyModule
  | relativeModule
  | raised (typeName : String)
  | notText
deriving DecidableEq, Repr

/-- What a reference that names no factory says. -/
def LoadError.message : LoadError → String
  | .notImported target reason =>
    s!"cannot import plugin module {Text.quoted target}: {reason}"
  | .noAttribute target item =>
    s!"plugin module {Text.quoted target} has no attribute {Text.quoted item}"
  | .notCallable reference => s!"plugin {Text.quoted reference} is not callable"
  | .emptyModule => "Empty module name"
  | .relativeModule => "a relative module name needs a package"
  | .raised typeName => s!"importing a plugin module raised {typeName}"
  | .notText => "a plugin reference is a text"

/-- Whether the error is one of a well-formed reference that leads nowhere. Such an error is told
to the reader; any other ends the program. -/
def LoadError.isUnresolved : LoadError → Bool
  | .notImported .. | .noAttribute .. | .notCallable _ => true
  | .emptyModule | .relativeModule | .raised _ | .notText => false

/-- The text before the first colon and the text behind it. -/
def splitReference (reference : String) : String × String :=
  let cs := reference.toList
  (String.ofList (cs.takeWhile (· ≠ ':')), String.ofList ((cs.dropWhile (· ≠ ':')).drop 1))

/-- The module of a name. A name that is empty or relative is not looked up. -/
def findModule (catalogue : Catalogue) (name : String) : Except LoadError Module :=
  if name.isEmpty then .error .emptyModule
  else if name.startsWith "." then .error .relativeModule
  else
    match catalogue.importModule name with
    | .ok found => .ok found
    | .error (.notImported reason) => .error (.notImported name reason)
    | .error (.raised typeName) => .error (.raised typeName)

/-- The factory of a reference. -/
def load (catalogue : Catalogue) (reference : String) : Except LoadError (Frontend → Offer) := do
  let (name, named) := splitReference reference
  let item := if named.isEmpty then "plugin" else named
  let found ← catalogue.findModule name
  match found.attributes.find? (·.1 = item) with
  | none => .error (.noAttribute name item)
  | some (_, .value) => .error (.notCallable reference)
  | some (_, .factory make) => .ok make

end Catalogue

end SharpSyntax
