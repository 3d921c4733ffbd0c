/-!
# Hexadecimal digits

Numbers written with a fixed count of lower-case hexadecimal digits, as escapes need them.
-/

namespace SharpSyntax.Text

/-- The last `width` hexadecimal digits of a number, the most significant first. -/
def hexDigits (width n : Nat) : List Char :=
  (List.range width).map fun i => Nat.digitChar (n / Nat.pow 16 (width - 1 - i) % 16)

end SharpSyntax.Text
