import SharpSyntax.Source

/-!
# Diagnostics

What the lexer and the parser tell about a source text: a severity, a code such as `E200`, a
message, the places it is about, and further notes. A diagnostic remembers the offset it was made
at; the parser's recovery compares that offset with the token it stands on.
-/

namespace SharpSyntax

/-- How bad a finding is. -/
inductive Severity where
  | error
  | warning
  | note
deriving DecidableEq, Repr

/-- The word for a severity. -/
def Severity.word : Severity → String
  | .error => "error"
  | .warning => "warning"
  | .note => "note"

/-- Whether a label marks the place of a finding or one that helps to explain it. -/
inductive LabelStyle where
  | primary
  | secondary
deriving DecidableEq, Repr

/-- The word for a label's style. -/
def LabelStyle.word : LabelStyle → String
  | .primary => "primary"
  | .secondary => "secondary"

/-- A place in a source text, with a message of its own if that is not empty. -/
structure Label where
  span : Span
  message : String
  style : LabelStyle := .primary
deriving DecidableEq, Repr

/-- One finding. -/
structure Diagnostic where
  severity : Severity
  code : String
  message : String
  labels : List Label
  notes : List String
  offset : Int
deriving DecidableEq, Repr

/-- An error at `length` characters of a source text. -/
def Diagnostic.errorAt (source : SourceText) (code message : String) (offset : Int) (length : Nat)
    (label : String) : Diagnostic where
  severity := .error
  code := code
  message := message
  labels := [{ span := source.span offset length, message := label }]
  notes := []
  offset := offset

end SharpSyntax
