import SharpSyntax.Text.CharClass

/-!
# Blank characters

The characters that separate tokens: the ASCII blanks with the four information separators, the
next-line and no-break characters, and the Unicode space and line separators.
-/

namespace SharpSyntax.Text

/-- The blank characters. -/
def blankClass : CharClass := [
  (0x9, 0xD), (0x1C, 0x20), (0x85, 0x85), (0xA0, 0xA0), (0x1680, 0x1680), (0x2000, 0x200A),
  (0x2028, 0x2029), (0x202F, 0x202F), (0x205F, 0x205F), (0x3000, 0x3000)]

/-- Whether a character is blank. -/
def isBlank (c : Char) : Bool := blankClass.contains c

end SharpSyntax.Text
