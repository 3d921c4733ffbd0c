import SharpSyntax.Json.Basic
import SharpSyntax.Text.Hex

/-!
# Printing JSON

Values are printed over several lines, each level two columns further in, and in ASCII: any other
character is written by its UTF-16 units.
-/

namespace SharpSyntax

namespace Text

/-- One UTF-16 unit as a JSON escape. -/
def unitEscape (unit : Nat) : List Char := '\\' :: 'u' :: hexDigits 4 unit

/-- A character as it stands in a JSON string. -/
def jsonChar (c : Char) : List Char :=
  if c = '"' || c = '\\' then ['\\', c]
  else if c = '\n' then ['\\', 'n']
  else if c = '\r' then ['\\', 'r']
  else if c = '\t' then ['\\', 't']
  else if c = '\x08' then ['\\', 'b']
  else if c = '\x0c' then ['\\', 'f']
  else if ' ' ≤ c && c ≤ '~' then [c]
  else if c.toNat < 0x10000 then unitEscape c.toNat
  else
    let above := c.toNat - 0x10000
    unitEscape (0xD800 + above / 0x400) ++ unitEscape (0xDC00 + above % 0x400)

/-- A JSON string with its quotes. -/
def jsonString (text : String) : String :=
  String.ofList ('"' :: text.toList.flatMap jsonChar ++ ['"'])

end Text

namespace Json

/-- The line break in front of a value at a level. -/
def breakAt (level : Nat) : String := "\n" ++ "".pushn ' ' (2 * level)

/-- Printed items between brackets, each on a line of its own. -/
def bracketed (opening closing : String) (level : Nat) (items : List String) : String :=
  if items.isEmpty then opening ++ closing
  else
    opening ++ breakAt (level + 1) ++ ("," ++ breakAt (level + 1)).intercalate items
      ++ breakAt level ++ closing

mutual

/-- A value printed at a level. -/
def print (level : Nat) : Json → String
  | .null => "null"
  | .boolean value => if value then "true" else "false"
  | .number value => toString value
  | .string value => Text.jsonString value
  | .array items => bracketed "[" "]" level (printItems (level + 1) items)
  | .object entries => bracketed "\x7b" "\x7d" level (printEntries (level + 1) entries)

/-- Items printed at a level. -/
def printItems (level : Nat) : List Json → List String
  | [] => []
  | item :: items => print level item :: printItems level items

/-- Entries printed at a level. -/
def printEntries (level : Nat) : List JsonEntry → List String
  | [] => []
  | ⟨name, value⟩ :: entries =>
    (Text.jsonString name ++ ": " ++ print level value) :: printEntries level entries

end

end Json

end SharpSyntax
