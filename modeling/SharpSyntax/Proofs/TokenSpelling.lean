import SharpSyntax.Token.Rule

/-!
# How tokens are written

Every kind of token has its own spellings, said here without the scanners: a name is letters, digits
and underscores, a string is a run of units between quotes, and so on. A source text is written from
a list of tokens by putting their texts one behind the other, with something between any two that
keeps them apart.

What stands between tokens is trivia: blanks, comments up to the end of their line, and comments
between `/*` and the first `*/` behind it. Between two tokens it begins with a blank, so that no two
of them run together and no symbol becomes the first half of a comment.
-/

namespace SharpSyntax

/-! ## Texts between quotes -/

/-- A run of units of some shape. -/
inductive Units (unit : List Char → Prop) : List Char → Prop
  | nil : Units unit []
  | cons {first rest : List Char} : unit first → Units unit rest → Units unit (first ++ rest)

/-- One step through a string or character between quotes. -/
inductive QuotedUnit (quote : Char) : List Char → Prop
  | escape {c : Char} : c ≠ '\n' → QuotedUnit quote ['\\', c]
  | plain {c : Char} : c ≠ quote → c ≠ '\\' → QuotedUnit quote [c]

/-- One step through a template. A hole may hold anything but a closing brace. -/
inductive TemplateUnit : List Char → Prop
  | escape {c : Char} : c ≠ '\n' → TemplateUnit ['\\', c]
  | hole {inner : List Char} : '}' ∉ inner → TemplateUnit ('{' :: inner ++ ['}'])
  | plain {c : Char} : c ≠ '"' → c ≠ '\\' → c ≠ '{' → TemplateUnit [c]

/-! ## Tokens -/

/-- A letter or underscore of ASCII, and behind it such letters, underscores and digits. -/
def IsName (text : List Char) : Prop :=
  ∃ first rest, text = first :: rest ∧ Scan.startsName first = true ∧
    ∀ c ∈ rest, Scan.continuesName c = true

/-- One decimal digit or more. -/
def IsDigits (text : List Char) : Prop := text ≠ [] ∧ ∀ c ∈ text, Text.isDigit c = true

/-- The texts of each kind of token. -/
inductive Spells : Kind → List Char → Prop
  | keyword {text : List Char} : String.ofList text ∈ keywords → Spells .keyword text
  | identifier {text : List Char} : IsName text → String.ofList text ∉ keywords →
      Spells .identifier text
  | integer {digits : List Char} : IsDigits digits → Spells .number digits
  | decimal {digits places : List Char} : IsDigits digits → IsDigits places →
      Spells .number (digits ++ '.' :: places)
  | string {body : List Char} : Units (QuotedUnit '"') body →
      Spells .string ('"' :: body ++ ['"'])
  | character {body : List Char} : QuotedUnit '\'' body → Spells .character ('\'' :: body ++ ['\''])
  | template {body : List Char} : Units TemplateUnit body →
      Spells .template ('$' :: '"' :: body ++ ['"'])
  | longSymbol {text : List Char} : text ∈ Scan.longSymbols → Spells .symbol text
  | shortSymbol {c : Char} : c ∈ Scan.shortSymbols → Spells .symbol [c]

/-! ## What stands between tokens -/

/-- Blanks and comments. -/
inductive Trivia : List Char → Prop
  | nil : Trivia []
  | blank {c : Char} {rest : List Char} : Text.isBlank c = true → Trivia rest → Trivia (c :: rest)
  | lineComment {body rest : List Char} : '\n' ∉ body → Trivia rest →
      Trivia ('/' :: '/' :: body ++ '\n' :: rest)
  | blockComment {body rest : List Char} : ¬ ['*', '/'] <:+: body ++ ['*'] → Trivia rest →
      Trivia ('/' :: '*' :: body ++ '*' :: '/' :: rest)

/-- Trivia that begins with a blank. -/
def Separates (gap : List Char) : Prop :=
  Trivia gap ∧ ∃ c rest, gap = c :: rest ∧ Text.isBlank c = true

/-- The tokens are written in order from an offset on, kept apart by trivia; there may be some
behind the last token. -/
inductive Written : Nat → List Token → List Char → Prop
  | nothing {offset : Nat} : Written offset [] []
  | last {offset : Nat} {kind : Kind} {text : List Char} : Spells kind text →
      Written offset [⟨kind, String.ofList text, offset⟩] text
  | more {offset : Nat} {kind : Kind} {text gap rest : List Char} {tokens : List Token} :
      Spells kind text → Separates gap →
      Written (offset + text.length + gap.length) tokens rest →
      Written offset (⟨kind, String.ofList text, offset⟩ :: tokens) (text ++ gap ++ rest)

end SharpSyntax
