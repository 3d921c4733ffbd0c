import SharpSyntax.Grammar.Expressions

/-!
# Parsers

A parser holds the tokens, the hooks of its plugins, the short names of kinds that they may look
up, and the state of the parse. It can run any rule, one after the other.

The rules it runs have more levels than constructs can nest in its tokens. Every construct inside
another begins at least one token later, and between two tokens a chain of named routines, each
calling the next, is at most as long as the table of routines.
-/

namespace SharpSyntax

/-- A parse that can be carried on rule by rule. -/
structure Parser where
  input : Input
  aliases : Aliases
  hooks : Hooks
  state : ParseState

namespace Parser

/-- A parser at the first token, without plugins. -/
def new (tokens : List Token) (source : SourceText) (aliases : Aliases) : Parser where
  input := .ofTokens tokens source
  aliases := aliases
  hooks := .none
  state := { cursor := 0, diagnostics := #[] }

/-- The diagnostics so far. -/
def diagnostics (parser : Parser) : List Diagnostic := parser.state.diagnostics.toList

/-- How often a loop may go round: each round but the last takes a token, and a cursor from in
front of the first token may come by each of them twice. -/
def budget (parser : Parser) : Nat := 2 * parser.input.size + 2

/-- How deep constructs may nest. -/
def depth (parser : Parser) : Nat :=
  parser.budget * (parser.hooks.routines.entries.length + 2)

/-- The rules that the parser runs. -/
def rules (parser : Parser) : Rules := .ofDepth parser.hooks parser.budget parser.depth

/-- Runs a step of a parse. -/
def run (parser : Parser) (step : Rules → Parse α) : Except Fault α × Parser :=
  match (step parser.rules).run parser.input |>.run parser.state with
  | .ok value state => (.ok value, { parser with state := state })
  | .error fault state => (.error fault, { parser with state := state })

end Parser

end SharpSyntax
