import SharpSyntax.Plugin.Basic
import SharpSyntax.Token.Shape

/-!
# Plugins described by data

A recipe describes a plugin without code: token rules with the place they go to, aliases, and
behaviours, each of which becomes a routine that is tried as an expression.

* `attribute` takes a token of the kind that the alias `attr` names, and drops its first character.
* `token` takes a token of a kind, with a text if one is given.
* `skip` moves one token on and declines; `refuse` declines at once.
* `stall` makes a node without taking a token; `tag` takes one whatever it is.
* `wrap` takes an expression between two symbols.
* `routine` calls a routine by its name.
-/

namespace SharpSyntax.Recipe

open Parse

/-- What a described routine does. -/
inductive Behaviour where
  | attribute
  | token (kind : Option Kind) (text : Option String)
  | skip
  | refuse
  | stall (name : String)
  | tag (name : String)
  | wrap (opening closing : String)
  | routine (name : String)
deriving DecidableEq, Repr

/-- A described token rule. -/
structure Rule where
  rule : TokenRule
  before : Option Kind

/-- A described extension. It changes lexers if it has rules or aliases, even empty ones, and
parsers if it has behaviours. -/
structure ExtensionRecipe where
  name : String
  rules : Option (List Rule)
  aliases : Option (List (String × Kind))
  behaviours : Option (List Behaviour)

/-- The node of a text that was taken. -/
def attributeNode (name : String) : Node := .extension "Attribute" [.text "name" name]

/-- The node of an expression between two symbols. -/
def wrappedNode (opening : String) (inner : Node) : Node :=
  .extension "Wrapped" [.text "open" opening, .child "inner" inner]

/-- Takes the token under the cursor if it fits. -/
def take (kind : Option Kind) (text : Option String) : Attempt Token := do
  if !(← expect kind text).ok then failure
  consume

/-- The routine of a behaviour, for a parser with the given aliases. -/
def Behaviour.run (aliases : Aliases) : Behaviour → Routine
  | .attribute, _ =>
    match aliases.find? "attr" with
    | none => stop (.missingName "attr")
    | some kind => do
      let token ← take (some kind) none
      return attributeNode (String.ofList (token.text.toList.drop 1))
  | .token kind text, _ => do
    let token ← take kind text
    return attributeNode token.text
  | .skip, _ => do
    let _ ← move 1
    failure
  | .refuse, _ => failure
  | .stall name, _ => return attributeNode name
  | .tag name, _ => do
    let _ ← move 1
    return attributeNode name
  | .wrap opening closing, rules => do
    let _ ← take (some .symbol) (some opening)
    let inner ← rules.expression 0
    let found ← require (some .symbol) (some closing)
      "Expected %VAL closer at %POS, got %TYPE: %VAL" "E900"
    if !found.ok then failure
    advance
    return wrappedNode opening inner
  | .routine name, rules => rules.routine name

/-- The effect of a described extension on a lexer: its rules in order, then its aliases. -/
def ExtensionRecipe.lex (recipe : ExtensionRecipe) (lexer : Lexer) : Except HookError Lexer := do
  let lexer ← (recipe.rules.getD []).foldlM (fun lexer rule => lexer.addRule rule.rule rule.before)
    lexer
  return (recipe.aliases.getD []).foldl (fun lexer entry => lexer.setAlias entry.1 entry.2) lexer

/-- The effect of a described extension on the hooks of a parser: one routine to a behaviour,
named after the extension and numbered. -/
def ExtensionRecipe.parse (recipe : ExtensionRecipe) (aliases : Aliases) (hooks : Hooks) : Hooks :=
  (recipe.behaviours.getD []).zipIdx.foldl (fun hooks entry =>
    hooks.addExtension s!"{recipe.name}.{entry.2}" (entry.1.run aliases)) hooks

/-- The extension that a recipe describes. -/
def ExtensionRecipe.extension (recipe : ExtensionRecipe) : Extension where
  lex := if recipe.rules.isSome || recipe.aliases.isSome then some recipe.lex else none
  parse := if recipe.behaviours.isSome then some recipe.parse else none

/-- The plugin of several described extensions; of two with one name the later one counts, at the
place of the earlier. -/
def plugin (extensions : List ExtensionRecipe) : Plugin where
  extensions := .ofList (extensions.map fun recipe => (recipe.name, recipe.extension))

end SharpSyntax.Recipe
