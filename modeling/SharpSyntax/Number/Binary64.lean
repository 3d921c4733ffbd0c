import SharpSyntax.Number.Decimal

/-!
# Floating-point numbers

The numbers that fit into 64 bits, 53 of them for the digits. Every finite one is a natural number
of units, where the unit is the least positive number, two to the power of -1074, and the natural
number has at most 53 digits in base two in front of its zeros.

A decimal stands for the number nearest to it, of two equally near ones for the one whose last
digit in base two is even. A number is shown as the shortest decimal that stands for it, and among
those of one length as the nearest.
-/

namespace SharpSyntax

/-- A floating-point number. Zero has a sign too. -/
inductive Binary64 where
  | nan
  | infinite (negative : Bool)
  | finite (negative : Bool) (units : Nat)
deriving DecidableEq, Repr

namespace Binary64

/-- How many units one is. -/
def unitsOfOne : Nat := Nat.pow 2 1074

/-- The first number of units that is too large. -/
def limit : Nat := Nat.pow 2 2098

/-- Whether a number counts as true: only zero does not. -/
def isTruthy : Binary64 → Bool
  | .nan | .infinite _ => true
  | .finite _ units => units ≠ 0

/-! ## Reading decimals -/

/-- The natural number nearest to a quotient, of two equally near ones the even one. -/
def divNearest (numerator denominator : Nat) : Nat :=
  let quotient := numerator / denominator
  match compare (2 * (numerator % denominator)) denominator with
  | .lt => quotient
  | .gt => quotient + 1
  | .eq => quotient + quotient % 2

/-- The units nearest to a quotient of units, where only 53 digits in base two may be used. -/
def roundUnits (numerator denominator : Nat) : Nat :=
  let spare := Nat.pow 2 ((numerator / denominator).log2 - 52)
  divNearest numerator (denominator * spare) * spare

/-- The units of a decimal, before it is known whether they fit. -/
def unitsOf (decimal : Decimal) : Nat :=
  roundUnits (decimal.digits * Nat.pow 10 decimal.exponent.toNat * unitsOfOne)
    (Nat.pow 10 (-decimal.exponent).toNat)

/-- The number that a decimal stands for. A decimal whose first digit is far out of reach is told
by the place of its point alone. -/
def ofDecimal (negative : Bool) (decimal : Decimal) : Binary64 :=
  if decimal.digits = 0 || decimal.pointPlace < -324 then .finite negative 0
  else if 309 < decimal.pointPlace then .infinite negative
  else
    let units := unitsOf decimal
    if units < limit then .finite negative units else .infinite negative

/-! ## Shortest decimals -/

/-- More decimal places than any number needs for its first 17 digits. -/
def decimalPlaces : Nat := 400

/-- The two decimals around some units that keep a number of the digits to `decimalPlaces` places
and drop the others, the nearer one first. -/
def around (units dropped : Nat) : List Decimal :=
  let step := unitsOfOne * Nat.pow 10 dropped
  let value := units * Nat.pow 10 decimalPlaces
  let below := value / step
  let nearest := divNearest value step
  let exponent : Int := dropped - decimalPlaces
  [⟨nearest, exponent⟩, ⟨if nearest = below then below + 1 else below, exponent⟩]

/-- The shortest decimal that stands for some units, of at most 17 digits. -/
def shortest? (units : Nat) : Option Decimal :=
  let places := Decimal.digitCount (units * Nat.pow 10 decimalPlaces / unitsOfOne)
  (List.range 17).findSome? fun n =>
    (around units (places - (n + 1))).find? fun decimal =>
      ofDecimal false decimal = .finite false units

/-- The decimal that is exactly some units. -/
def exactDecimal (units : Nat) : Decimal := ⟨units * Nat.pow 5 1074, -1074⟩

/-- A number as text. -/
def text : Binary64 → String
  | .nan => "nan"
  | .infinite negative => signed negative "inf"
  | .finite negative units =>
    signed negative ((shortest? units).getD (exactDecimal units)).text
where
  /-- A text behind the sign of a number. -/
  signed (negative : Bool) (text : String) : String := if negative then "-" ++ text else text

end Binary64

end SharpSyntax
