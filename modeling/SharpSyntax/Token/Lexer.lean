import SharpSyntax.Diagnostic
import SharpSyntax.Text.Quoted
import SharpSyntax.Token.Rule

/-!
# The lexer

A lexer is a session on one source text. Rules and aliases may be added before, between and after
runs; a run that meets a character no rule accepts stops there with the tokens it has, and a later
run goes on from the same place.
-/

namespace SharpSyntax

/-- No rule has a lexeme at an offset. -/
structure LexError where
  char : Char
  offset : Nat
  diagnostic : Diagnostic
deriving DecidableEq, Repr

/-- What a lexing error says. -/
def LexError.message (error : LexError) : String := "1 error(s): " ++ error.diagnostic.message

/-- A rule was to be put before the first rule of a kind that no rule has. -/
structure NoSuchRule where
  kind : Kind
deriving DecidableEq, Repr

/-- What a misplaced rule says. -/
def NoSuchRule.message (error : NoSuchRule) : String :=
  s!"no token rule of kind {error.kind.name} to insert before"

/-- A session on one source text: its rules and aliases, how far it has come, and its tokens. -/
structure Lexer where
  source : SourceText
  rules : List TokenRule
  aliases : Aliases
  pos : Nat
  tokens : List Token

namespace Lexer

/-- A session at the start of a source text, with the built-in rules. -/
def new (source : SourceText) : Lexer where
  source := source
  rules := TokenRule.builtin
  aliases := .builtin
  pos := 0
  tokens := []

/-- The rules with one more in front of the first rule of a kind. -/
def insertBefore? (kind : Kind) (rule : TokenRule) : List TokenRule → Option (List TokenRule)
  | [] => none
  | first :: rest =>
    if first.kind = kind then some (rule :: first :: rest)
    else (insertBefore? kind rule rest).map (first :: ·)

/-- Adds a rule, behind all others or in front of the first rule of a kind. -/
def addRule (lexer : Lexer) (rule : TokenRule) (before : Option Kind) : Except NoSuchRule Lexer :=
  match before with
  | none => .ok { lexer with rules := lexer.rules ++ [rule] }
  | some kind =>
    match insertBefore? kind rule lexer.rules with
    | some rules => .ok { lexer with rules := rules }
    | none => .error ⟨kind⟩

/-- Gives a kind a short name. -/
def setAlias (lexer : Lexer) (name : String) (kind : Kind) : Lexer :=
  { lexer with aliases := lexer.aliases.set name kind }

/-- The error of a character that no rule accepts. -/
def errorAt (source : SourceText) (offset : Nat) (c : Char) : LexError where
  char := c
  offset := offset
  diagnostic := Diagnostic.errorAt source "E100"
    s!"Unexpected token at position {offset}: {Text.quoted c.toString}" offset 1
    "no token rule matches here"

/-- Runs to the end of the source text or to the first character that no rule accepts. -/
def tokenize (lexer : Lexer) : Except LexError (List Token) × Lexer :=
  let text := lexer.source.text.toList
  let (lexemes, rest) :=
    cut lexer.rules lexer.pos (text.take lexer.pos).reverse (text.drop lexer.pos)
  let pos := lexer.pos + charCount lexemes
  let tokens := lexer.tokens ++ lexemes.filterMap Lexeme.token?
  let after := { lexer with pos := pos, tokens := tokens }
  match rest with
  | [] => (.ok tokens, after)
  | c :: _ => (.error (errorAt lexer.source pos c), after)

end Lexer

end SharpSyntax
