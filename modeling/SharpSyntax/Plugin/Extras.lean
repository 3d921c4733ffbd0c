import SharpSyntax.Plugin.Basic

/-!
# The bundled plugin

Keyword literals and `return` statements. The word `null` becomes a kind of its own; with `true`,
`false`, `this` and `base` it stands for a value. A `return` takes an expression unless the end of
the input, a semicolon or a closing brace follows it.
-/

namespace SharpSyntax.Extras

open Parse

/-- The kind of the word `null`. -/
def nullKind : Kind := ⟨"NULL"⟩

/-- The reserved words that stand for a value. -/
def valueWords : List String := ["true", "false", "this", "base"]

/-- Puts the rule for `null` in front of identifiers, which would win otherwise. -/
def lex (lexer : Lexer) : Except HookError Lexer := do
  let rule : TokenRule := { kind := nullKind, scanner := Scan.wholeWord "null" }
  let lexer ← lexer.addRule rule (some .identifier)
  return lexer.setAlias "null" nullKind

/-- The node of a word that stands for a value. -/
def keywordLiteralNode (value : String) : Node :=
  .extension "KeywordLiteral" [.text "value" value]

/-- The node of a `return`, with or without an argument. -/
def returnNode : Option Node → Node
  | some argument => .extension "ReturnStatement" [.child "argument" argument]
  | none => .extension "ReturnStatement" [.absent "argument"]

/-- A word that stands for a value. -/
def keywordLiteral (keyword null : Kind) : Routine := fun _ => do
  let token ← current
  if token.kind = null || (token.kind = keyword && valueWords.contains token.text) then
    advance
    return keywordLiteralNode token.text
  else
    failure

/-- A `return` and its argument; an argument that cannot be made is left out. -/
def returnStatement (keyword : Kind) : Routine := fun rules => do
  let token ← current
  if !token.fits (some keyword) (some "return") then failure
  advance
  if ← atEnd then return returnNode none
  let next ← current
  if next.text = ";" || next.text = closeBrace then return returnNode none
  return returnNode (← Attempt.orNone (rules.expression 0))

/-- Registers both routines, for the kinds that the aliases name. -/
def parse (aliases : Aliases) (hooks : Hooks) : Hooks :=
  let keyword := (aliases.find? "keyword").getD .keyword
  let null := (aliases.find? "null").getD nullKind
  (hooks.addExtension "keyword_literal" (keywordLiteral keyword null)).addExtension
    "return_statement" (returnStatement keyword)

/-- The bundled plugin. -/
def plugin : Plugin where
  extensions := .ofList [("keyword_literals", { lex := some lex, parse := some parse })]

end SharpSyntax.Extras
