import SharpSyntax.Config
import SharpSyntax.Frontend
import SharpSyntax.Plugin.Catalogue

/-!
# Failures

What can go wrong between a configuration and an analysed source text, and the frontend that a list
of plugin references makes.
-/

namespace SharpSyntax

/-- Why a run could not be carried out. -/
inductive Failure where
  | config (error : ConfigError)
  | plugin (error : Catalogue.LoadError)
  | offer (error : Refusal)
  | file (error : FileError)
  | analysis (error : AnalysisError)
deriving DecidableEq, Repr

namespace Frontend

/-- The factory of a configured reference. -/
def loadReference (catalogue : Catalogue) : Toml.Value → Except Failure (Frontend → Offer)
  | .string reference => (catalogue.load reference).mapError .plugin
  | _ => .error (.plugin .notText)

/-- The frontend with the plugins of several references. All references are looked up before the
first plugin is registered. -/
def ofReferences (catalogue : Catalogue) (references : List Toml.Value) :
    Except Failure Frontend := do
  let factories ← references.mapM (loadReference catalogue)
  (ofFactories factories).mapError .offer

end Frontend

end SharpSyntax
