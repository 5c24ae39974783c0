/-! Binary floating-point numbers of 64 bits: their values, and the number nearest to a fraction or a decimal. -/

namespace Phrasebook.Decimal

/-- A number of 64 bits. A finite one is `significand · 2 ^ exponent` up to its sign; numbers made here have a
significand of 53 bits, or a smaller one and the exponent `-1074`. -/
inductive Binary64 where
  | finite (negative : Bool) (significand : Nat) (exponent : Int)
  | infinite (negative : Bool)
  | undefined
deriving DecidableEq, Repr, Inhabited

namespace Binary64

def leastExponent : Int := -1074

def greatestExponent : Int := 971

def leastFull : Nat := 1 <<< 52

/-- Rounds a quotient to the nearest whole number, and a half to the even neighbour. -/
def roundDiv (numerator denominator : Nat) : Nat :=
  let quotient := numerator / denominator
  let rest := numerator % denominator
  if 2 * rest < denominator then quotient
  else if 2 * rest > denominator then quotient + 1
  else if quotient % 2 = 0 then quotient else quotient + 1

def scaled (numerator denominator : Nat) (power : Int) : Nat × Nat :=
  if 0 ≤ power then (numerator <<< power.toNat, denominator) else (numerator, denominator <<< (-power).toNat)

/-- The number nearest to a fraction of positive whole numbers. -/
def ofFraction (negative : Bool) (numerator denominator : Nat) : Binary64 :=
  if numerator = 0 then .finite negative 0 leastExponent
  else
    let guess : Int := (numerator.log2 : Int) - denominator.log2 - 52
    let (n, d) := scaled numerator denominator (-guess)
    let exponent := max (if n / d < leastFull then guess - 1 else guess) leastExponent
    let (n, d) := scaled numerator denominator (-exponent)
    let significand := roundDiv n d
    let (significand, exponent) :=
      if significand = 2 * leastFull then (leastFull, exponent + 1) else (significand, exponent)
    if greatestExponent < exponent then .infinite negative else .finite negative significand exponent

/-- The number nearest to `digits · 10 ^ exponent`. Decimals far outside the range are settled without
writing out their power of ten. -/
def ofDecimal (negative : Bool) (digits : Nat) (exponent : Int) : Binary64 :=
  if digits = 0 then .finite negative 0 leastExponent
  else if 400 < exponent then .infinite negative
  else if (digits.log2 : Int) + 1 + 3 * exponent < -1080 then .finite negative 0 leastExponent
  else if 0 ≤ exponent then ofFraction negative (digits * Nat.pow 10 exponent.toNat) 1
  else ofFraction negative digits (Nat.pow 10 (-exponent).toNat)

def neg : Binary64 → Binary64
  | .finite negative significand exponent => .finite (!negative) significand exponent
  | .infinite negative => .infinite (!negative)
  | .undefined => .undefined

def toInt? : Binary64 → Option Int
  | .finite negative significand exponent =>
    let sign (n : Nat) : Int := if negative then -(n : Int) else n
    if 0 ≤ exponent then some (sign (significand <<< exponent.toNat))
    else
      let unit := 1 <<< (-exponent).toNat
      if significand % unit = 0 then some (sign (significand / unit)) else none
  | _ => none

end Binary64

end Phrasebook.Decimal
