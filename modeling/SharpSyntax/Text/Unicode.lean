import SharpSyntax.Text.Lines

/-!
# Text files

A text file holds strict UTF-8; whatever else it holds makes it unreadable. Its line ends are made
line feeds when it is read as text, and a byte order mark is a character like any other.
-/

namespace SharpSyntax.Text

/-- The text that bytes hold. -/
def decode? (bytes : ByteArray) : Option String := String.fromUTF8? bytes

/-- The text that bytes hold, with unified line ends. -/
def decodeLines? (bytes : ByteArray) : Option String :=
  (decode? bytes).map fun text => String.ofList (unifyNewlines text.toList)

end SharpSyntax.Text
