import SharpSyntax.Parser.Session
import SharpSyntax.Token.Lexer

/-!
# Plugins

A plugin is a table of named extensions. An extension may change every lexer before it runs and
every parser before it starts; it keeps nothing between runs.

A plugin comes from a factory, which is free to give something else; what it gave is then refused
by the name of its type. Code of a plugin may raise any exception, which is known by the name of its
type as well.
-/

namespace SharpSyntax

/-- Why an extension could not change a lexer. -/
inductive HookError where
  | rule (error : NoSuchRule)
  | raised (typeName : String)
deriving DecidableEq, Repr

instance : MonadLift (Except NoSuchRule) (Except HookError) where
  monadLift result := result.mapError .rule

/-- What an extension does to a lexer and to a parser. -/
structure Extension where
  lex : Option (Lexer → Except HookError Lexer)
  parse : Option (Aliases → Hooks → Hooks)

/-- Named extensions, in the order in which they apply. -/
structure Plugin where
  extensions : Table Extension

/-- What came of calling a factory: a plugin, something else, or an exception. -/
inductive Offer where
  | plugin (plugin : Plugin)
  | other (typeName : String)
  | raised (typeName : String)

/-- Why the offer of a factory is no plugin. -/
inductive Refusal where
  | notAPlugin (typeName : String)
  | raised (typeName : String)
deriving DecidableEq, Repr

/-- What a refused offer says. -/
def Refusal.message : Refusal → String
  | .notAPlugin typeName => s!"plugin factory returned {typeName}, expected Plugin"
  | .raised typeName => s!"plugin factory raised {typeName}"

/-- The plugin of an offer. -/
def Offer.accept : Offer → Except Refusal Plugin
  | .plugin given => .ok given
  | .other typeName => .error (.notAPlugin typeName)
  | .raised typeName => .error (.raised typeName)

namespace Plugin

/-- Applies the extensions of a plugin to a lexer. -/
def applyToLexer (plugin : Plugin) (lexer : Lexer) : Except HookError Lexer :=
  plugin.extensions.values.foldlM (fun lexer extension =>
    match extension.lex with
    | some change => change lexer
    | none => .ok lexer) lexer

/-- Applies the extensions of a plugin to the hooks of a parser. -/
def applyToHooks (plugin : Plugin) (aliases : Aliases) (hooks : Hooks) : Hooks :=
  plugin.extensions.values.foldl (fun hooks extension =>
    match extension.parse with
    | some change => change aliases hooks
    | none => hooks) hooks

end Plugin

namespace Hooks

/-- Puts a routine under a name and tries it behind the other extensions. -/
def addExtension (hooks : Hooks) (name : String) (routine : Routine) : Hooks where
  extensions := hooks.extensions ++ [routine]
  routines := hooks.routines.set name routine

end Hooks

end SharpSyntax
