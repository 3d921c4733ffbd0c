/-!
# Character classes

A class of characters is a list of closed ranges of code points, in increasing order. Membership
is one scan of the list.
-/

namespace SharpSyntax.Text

/-- A class of characters, as closed ranges of code points. -/
abbrev CharClass := List (Nat × Nat)

/-- Whether the class holds the character. -/
def CharClass.contains (ranges : CharClass) (c : Char) : Bool :=
  ranges.any fun range => range.1 ≤ c.toNat && c.toNat ≤ range.2

end SharpSyntax.Text
