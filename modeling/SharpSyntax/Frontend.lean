import SharpSyntax.Plugin.Basic

/-!
# The frontend

A frontend holds plugins in the order in which they were registered and makes a fresh lexer and a
fresh parser for every source text. Lexing and parsing are the two things it can do with one.
-/

namespace SharpSyntax

/-- The plugins that every lexer and parser is made with. -/
structure Frontend where
  plugins : List Plugin

/-- Why a source text could not be analysed. -/
inductive AnalysisError where
  | lex (error : LexError)
  | hook (error : HookError)
  | fault (fault : Fault)
deriving DecidableEq, Repr

/-- A syntax tree and what the parser reported about its source text. -/
structure ParseResult where
  program : Program
  diagnostics : List Diagnostic

namespace ParseResult

/-- Whether nothing was reported. -/
def ok (result : ParseResult) : Bool := result.diagnostics.isEmpty

/-- The messages of the diagnostics. -/
def messages (result : ParseResult) : List String := result.diagnostics.map Diagnostic.message

end ParseResult

namespace Frontend

/-- The frontend without plugins. -/
def empty : Frontend := ⟨[]⟩

/-- Registers what a factory gave, if it is a plugin. -/
def register (frontend : Frontend) (offer : Offer) : Except Refusal Frontend := do
  return ⟨frontend.plugins ++ [← offer.accept]⟩

/-- The frontend with the plugins of several factories. Each is called with the frontend that the
ones before it have made. -/
def ofFactories (factories : List (Frontend → Offer)) : Except Refusal Frontend :=
  factories.foldlM (fun frontend factory => frontend.register (factory frontend)) empty

/-- A fresh lexer for a source text. -/
def lexer (frontend : Frontend) (source : SourceText) : Except HookError Lexer :=
  frontend.plugins.foldlM (fun lexer plugin => plugin.applyToLexer lexer) (Lexer.new source)

/-- A fresh parser for tokens of a source text. -/
def parser (frontend : Frontend) (tokens : List Token) (source : SourceText) (aliases : Aliases) :
    Parser :=
  let hooks := frontend.plugins.foldl (fun hooks plugin => plugin.applyToHooks aliases hooks) .none
  { Parser.new tokens source aliases with hooks := hooks }

/-- The tokens of a source text, and the aliases of the lexer that cut them. -/
def tokens (frontend : Frontend) (source : SourceText) :
    Except AnalysisError (List Token × Aliases) :=
  match frontend.lexer source with
  | .error error => .error (.hook error)
  | .ok lexer =>
    match lexer.tokenize.1 with
    | .error error => .error (.lex error)
    | .ok tokens => .ok (tokens, lexer.aliases)

/-- The tokens of a source text. -/
def lex (frontend : Frontend) (source : SourceText) : Except AnalysisError (List Token) :=
  (·.1) <$> frontend.tokens source

/-- The syntax tree of a source text, with or without diagnostics. -/
def parse (frontend : Frontend) (source : SourceText) : Except AnalysisError ParseResult := do
  let (tokens, aliases) ← frontend.tokens source
  match (frontend.parser tokens source aliases).run Grammar.program with
  | (.ok program, parser) => return { program := program, diagnostics := parser.diagnostics }
  | (.error fault, _) => throw (.fault fault)

end Frontend

end SharpSyntax
