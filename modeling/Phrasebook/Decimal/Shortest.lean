import Phrasebook.Decimal.Binary64

/-! The shortest decimal of a floating-point number: the one with the fewest digits that reads back as the same
number, and of several such the one nearest to it. -/

namespace Phrasebook.Decimal

def digitsOf (n : Nat) : List Char := Nat.toDigits 10 n

namespace Binary64

/-- Of the two decimals with `count` digits around a fraction, in units of `10 ^ unit`, the nearest that reads
back as a given number; of two equally near the even one. -/
def nearestReading? (number : Binary64) (numerator denominator : Nat) (unit : Int) : Option Nat :=
  let (n, d) :=
    if 0 ≤ unit then (numerator, denominator * Nat.pow 10 unit.toNat)
    else (numerator * Nat.pow 10 (-unit).toNat, denominator)
  let low := n / d
  let rest := n % d
  let reads (digits : Nat) : Bool := ofDecimal false digits unit = number
  let lowFirst := 2 * rest < d || (2 * rest = d && low % 2 = 0)
  match reads low, reads (low + 1) with
  | true, true => some (if lowFirst then low else low + 1)
  | true, false => some low
  | false, true => some (low + 1)
  | false, false => none

/-- Tries decimals with more and more digits, up to `left` further ones; `exponent` is the place in front of
the first digit. The last resort is the exact value. -/
def shortestFrom (number : Binary64) (numerator denominator : Nat) (exponent : Int) (count : Nat) :
    (left : Nat) → Nat × Int
  | 0 => (numerator * Nat.pow 5 denominator.log2, -(denominator.log2 : Int))
  | left + 1 =>
    let unit := exponent - count
    match nearestReading? number numerator denominator unit with
    | some digits => (digits, unit)
    | none => shortestFrom number numerator denominator exponent (count + 1) left

/-- The shortest digits and the power of ten they are multiplied by, for a positive finite number
`significand · 2 ^ exponent`. -/
def shortest (significand : Nat) (exponent : Int) : Nat × Int :=
  let (numerator, denominator) := scaled significand 1 exponent
  let place : Int :=
    if denominator ≤ numerator then (digitsOf (numerator / denominator)).length
    else 1 - ((digitsOf (denominator / numerator)).length : Int)
  shortestFrom (.finite false significand exponent) numerator denominator place 1 17

/-- Digits without the zeros at their end. -/
def significant (digits : List Char) : List Char := (digits.reverse.dropWhile (· = '0')).reverse

/-- Digits around a point, which stands behind so many of them. -/
def positional (digits : List Char) (point : Int) : List Char :=
  if point ≤ 0 then '0' :: '.' :: List.replicate (-point).toNat '0' ++ digits
  else
    let count := point.toNat
    let fraction := digits.drop count
    digits.take count ++ List.replicate (count - digits.length) '0' ++
      '.' :: (if fraction.isEmpty then ['0'] else fraction)

/-- Digits with a point behind the first and a power of ten, for a point behind so many of them. The power has a
sign and two digits. -/
def scientific (digits : List Char) (point : Int) : List Char :=
  let places := point - 1
  let mark := if places < 0 then '-' else '+'
  let size := digitsOf places.natAbs
  let mantissa :=
    match digits with
    | first :: second :: rest => first :: '.' :: second :: rest
    | few => few
  mantissa ++ 'e' :: mark :: (if size.length < 2 then '0' :: size else size)

/-- The text of `digits · 10 ^ power`. Positional notation serves values from a ten-thousandth to below
`10 ^ 16`. -/
def decimalText (digits : Nat) (power : Int) : List Char :=
  let written := digitsOf digits
  let point : Int := written.length + power
  if -4 < point && point ≤ 16 then positional (significant written) point
  else scientific (significant written) point

def text : Binary64 → String
  | .undefined => "NaN"
  | .infinite negative => if negative then "-Infinity" else "Infinity"
  | .finite negative significand exponent =>
    let sign := if negative then "-" else ""
    if significand = 0 then sign ++ "0.0"
    else
      let (digits, power) := shortest significand exponent
      sign ++ String.ofList (decimalText digits power)

end Binary64

end Phrasebook.Decimal
