import SharpSyntax.Table

/-!
# Tokens

A token is a kind, the text it was cut from, and the offset of that text. The built-in kinds are
listed here; an extension names kinds of its own, and kinds are the same when their names are.
-/

namespace SharpSyntax

/-- The kind of a token, which is its name. -/
structure Kind where
  name : String
deriving DecidableEq, Repr

namespace Kind

/-- Blank characters between tokens. -/
def whitespace : Kind := ⟨"WHITESPACE"⟩

/-- A comment up to the end of its line. -/
def lineComment : Kind := ⟨"COMMENT_SINGLE"⟩

/-- A comment between `/*` and `*/`. -/
def blockComment : Kind := ⟨"COMMENT_MULTI"⟩

/-- A string with holes. -/
def template : Kind := ⟨"INTERPOLATED_STR"⟩

/-- A reserved word. -/
def keyword : Kind := ⟨"KEYWORD"⟩

/-- A name. -/
def identifier : Kind := ⟨"IDENTIFIER"⟩

/-- A number. -/
def number : Kind := ⟨"NUMBER"⟩

/-- A string without holes. -/
def string : Kind := ⟨"STRING"⟩

/-- A character in quotes. -/
def character : Kind := ⟨"CHAR"⟩

/-- An operator or a punctuation mark. -/
def symbol : Kind := ⟨"SYMBOL"⟩

/-- The end of the input; no rule of the lexer makes such a token. -/
def endOfInput : Kind := ⟨"EOF"⟩

end Kind

/-- A piece of source text with its kind and its place. -/
structure Token where
  kind : Kind
  text : String
  offset : Nat
deriving DecidableEq, Repr

/-- The offset just past a token. -/
def Token.stop (token : Token) : Nat := token.offset + token.text.length

/-- The reserved words. -/
def keywords : List String := [
  "class", "public", "private", "protected", "internal", "virtual", "readonly", "sealed",
  "abstract", "override", "static", "async", "void", "float", "double", "int", "long", "char",
  "string", "bool", "object", "var", "if", "else", "for", "while", "return", "new", "using",
  "namespace", "true", "false", "this", "base"]

/-- The reserved words that may stand in front of a member. -/
def modifiers : List String := [
  "public", "private", "protected", "internal", "static", "abstract", "override", "virtual",
  "readonly", "sealed", "async"]

/-- The symbol that opens a block. -/
abbrev openBrace : String := "\x7b"

/-- The symbol that closes a block. -/
abbrev closeBrace : String := "\x7d"

/-- Short names under which extensions look up kinds. -/
abbrev Aliases := Table Kind

/-- The short names of the built-in kinds. -/
def Aliases.builtin : Aliases := .ofList [
  ("str", .string), ("num", .number), ("id", .identifier), ("keyword", .keyword),
  ("sym", .symbol), ("chr", .character), ("templatestr", .template)]

end SharpSyntax
