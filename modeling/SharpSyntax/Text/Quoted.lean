import SharpSyntax.Text.Hex
import SharpSyntax.Text.Printable

/-!
# Quoted text

Text shown inside a message stands in quotes, so that blanks at its ends and characters that do
not print can be seen.

* The quote is `'`, and `"` only when the text holds a `'` and no `"`.
* The quote and the backslash are written with a backslash in front; tab, line feed and carriage
  return are written `\t`, `\n` and `\r`.
* Any other character that does not print is written by its code point, with the shortest of the
  forms `\xNN`, `\uNNNN` and `\UNNNNNNNN` that holds it.
-/

namespace SharpSyntax.Text

/-- The quote that a text stands in. -/
def quoteFor (text : List Char) : Char :=
  if text.contains '\'' && !text.contains '"' then '"' else '\''

/-- A character by its code point. -/
def escapeCodePoint (c : Char) : List Char :=
  if c.toNat ≤ 0xFF then '\\' :: 'x' :: hexDigits 2 c.toNat
  else if c.toNat ≤ 0xFFFF then '\\' :: 'u' :: hexDigits 4 c.toNat
  else '\\' :: 'U' :: hexDigits 8 c.toNat

/-- A character as it stands between two quotes. -/
def quoteChar (quote c : Char) : List Char :=
  if c = quote || c = '\\' then ['\\', c]
  else if c = '\t' then ['\\', 't']
  else if c = '\n' then ['\\', 'n']
  else if c = '\r' then ['\\', 'r']
  else if isPrintable c then [c]
  else escapeCodePoint c

/-- A text in quotes. -/
def quoted (text : String) : String :=
  let cs := text.toList
  let quote := quoteFor cs
  String.ofList (quote :: cs.flatMap (quoteChar quote) ++ [quote])

/-- A list of texts, each in quotes, between brackets. -/
def quotedList (texts : List String) : String :=
  "[" ++ ", ".intercalate (texts.map quoted) ++ "]"

end SharpSyntax.Text
