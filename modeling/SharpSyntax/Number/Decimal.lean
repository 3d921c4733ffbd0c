/-!
# Decimals

A decimal is a natural number times a power of ten. It is written with all its digits in place
where that takes few zeros, and otherwise with one digit in front of the point and an exponent.
Either way the text shows that it is no whole number: there is a point or an exponent in it.
-/

namespace SharpSyntax

/-- The number `digits * 10 ^ exponent`. -/
structure Decimal where
  digits : Nat
  exponent : Int
deriving DecidableEq, Repr

namespace Decimal

/-- How many digits a natural number has. -/
def digitCount (n : Nat) : Nat := (toString n).length

/-- How many digits stand in front of the point, or, if negative, how many zeros behind it stand in
front of the first digit. -/
def pointPlace (decimal : Decimal) : Int := digitCount decimal.digits + decimal.exponent

/-- The digits without the zeros at their end; one digit stays. -/
def significant (decimal : Decimal) : List Char :=
  match (toString decimal.digits).toList with
  | [] => []
  | first :: rest => first :: (rest.reverse.dropWhile (· = '0')).reverse

/-- Digits with the point at a place. -/
def plainText (digits : List Char) (place : Int) : List Char :=
  if place ≤ 0 then '0' :: '.' :: List.replicate (-place).toNat '0' ++ digits
  else
    let whole := digits.take place.toNat ++ List.replicate (place.toNat - digits.length) '0'
    let behind := digits.drop place.toNat
    whole ++ '.' :: (if behind.isEmpty then ['0'] else behind)

/-- Digits with the point behind the first one and the exponent that makes up for it, which has a
sign and two digits or more. -/
def exponentText (digits : List Char) (place : Int) : List Char :=
  let power := place - 1
  let sign := if power < 0 then '-' else '+'
  let shown := (toString power.natAbs).toList
  let point := if digits.length ≤ 1 then [] else ['.']
  digits.take 1 ++ point ++ digits.drop 1 ++ 'e' :: sign ::
    (List.replicate (2 - shown.length) '0' ++ shown)

/-- A decimal as text: in place if the point is at most 16 digits behind the first digit and at
most three zeros stand between the point and a first digit behind it. -/
def text (decimal : Decimal) : String :=
  let place := decimal.pointPlace
  String.ofList
    (if decimal.digits = 0 then ['0', '.', '0']
    else if -4 < place && place ≤ 16 then plainText decimal.significant place
    else exponentText decimal.significant place)

end Decimal

end SharpSyntax
