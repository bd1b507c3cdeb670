/-! Decimal numbers and the binary floating-point numbers nearest to them: 53 bits of precision, ties to even,
exponents from -1074 up, and infinity beyond the greatest finite number. A binary number is written as the shortest
decimal one that reads back as it: among the decimal grids, from one significant digit to seventeen, the first
that has a point in the rounding interval decides; of its points beside the value the nearer one is taken. -/
namespace AccessChain.Decimal

/-- A quotient rounded to the nearest natural number, a half to the even one. -/
def roundQuotient (numerator denominator : Nat) : Nat :=
  let quotient := numerator / denominator
  let twice := 2 * (numerator % denominator)
  if twice < denominator then quotient
  else if denominator < twice then quotient + 1
  else quotient + quotient % 2

def scaled (base : Nat) (numerator denominator : Nat) (exponent : Int) : Nat × Nat :=
  if 0 ≤ exponent then (numerator, denominator * base.pow exponent.toNat)
  else (numerator * base.pow (-exponent).toNat, denominator)

inductive Magnitude where
  | finite (significand : Nat) (exponent : Int)
  | infinite
deriving DecidableEq

namespace Magnitude

def exponentOf (numerator denominator : Nat) : Int :=
  let guess : Int := (numerator.log2 : Int) - denominator.log2 - 53
  let (high, low) := scaled 2 numerator denominator guess
  max (if high < low * Nat.pow 2 53 then guess else guess + 1) (-1074)

def ofQuotient (numerator denominator : Nat) : Magnitude :=
  if numerator = 0 then .finite 0 (-1074)
  else
    let exponent := exponentOf numerator denominator
    let (high, low) := scaled 2 numerator denominator exponent
    let significand := roundQuotient high low
    let (significand, exponent) :=
      if significand = Nat.pow 2 53 then (Nat.pow 2 52, exponent + 1) else (significand, exponent)
    if 971 < exponent then .infinite else .finite significand exponent

/-- The number nearest to `digits * 10 ^ exponent`. Powers far outside the range are not computed. -/
def ofDecimal (digits : Nat) (exponent : Int) : Magnitude :=
  let size : Int := (Nat.toDigits 10 digits).length + exponent
  if digits = 0 || size < -400 then .finite 0 (-1074)
  else if 400 < size then .infinite
  else
    let (high, low) := scaled 10 digits 1 (-exponent)
    ofQuotient high low

end Magnitude

structure Scientific where
  digits : Nat
  exponent : Int
deriving DecidableEq

/-- The numbers that round to a significand and an exponent, all in quarters of the unit `2 ^ exponent`. -/
structure Interval where
  low : Nat
  value : Nat
  high : Nat
  closed : Bool

namespace Interval

def ofMagnitude (significand : Nat) (exponent : Int) : Interval where
  low := 4 * significand - (if significand = Nat.pow 2 52 && exponent ≠ -1074 then 1 else 2)
  value := 4 * significand
  high := 4 * significand + 2
  closed := significand % 2 == 0

def holds (interval : Interval) (numerator denominator : Nat) : Bool :=
  if interval.closed then
    interval.low * denominator ≤ numerator && numerator ≤ interval.high * denominator
  else interval.low * denominator < numerator && numerator < interval.high * denominator

/-- The better of the two points beside the value on the grid of multiples of `10 ^ power`, where the unit
of the interval is `2 ^ (exponent - 2)`. -/
def onGrid (interval : Interval) (exponent power : Int) : Option Scientific :=
  let (unitHigh, unitLow) := scaled 2 1 1 (2 - exponent)
  let (high, low) := scaled 10 (interval.value * unitHigh) unitLow power
  let below := high / low
  let (pointHigh, pointLow) := scaled 10 1 1 (-power)
  let inside (point : Nat) : Bool :=
    interval.holds (point * pointHigh * unitLow) (pointLow * unitHigh)
  let twice := 2 * (high % low)
  let belowFirst := twice < low || twice = low && below % 2 = 0
  let first := if belowFirst then below else below + 1
  let second := if belowFirst then below + 1 else below
  if inside first then some ⟨first, power⟩
  else if inside second then some ⟨second, power⟩
  else none

end Interval

/-- The place of the first digit: the value lies below `10 ^ place` and is at least a tenth of that. -/
def placeOf (significand : Nat) (exponent : Int) : Int :=
  let (high, low) := scaled 2 significand 1 (-exponent)
  let guess : Int := ((Nat.toDigits 10 high).length : Int) - (Nat.toDigits 10 low).length
  let (scaledHigh, scaledLow) := scaled 10 high low guess
  if scaledHigh < scaledLow then guess else guess + 1

def shortestFrom (interval : Interval) (exponent place : Int) : Nat → Nat → Scientific
  | 0, _ => ⟨0, 0⟩
  | more + 1, count =>
    match interval.onGrid exponent (place - count) with
    | some found => found
    | none => shortestFrom interval exponent place more (count + 1)

def shortest (significand : Nat) (exponent : Int) : Scientific :=
  if significand = 0 then ⟨0, 0⟩
  else
    shortestFrom (Interval.ofMagnitude significand exponent) exponent (placeOf significand exponent) 17 1

structure Layout where
  /-- Below this number of digits before the point, an exponent is written. -/
  leastPlace : Int
  /-- Above this number of digits before the point, an exponent is written. -/
  greatestPlace : Int
  /-- The least number of digits of an exponent. -/
  exponentWidth : Nat

namespace Layout

def zeros (count : Nat) : List Char := List.replicate count '0'

def significant (digits : List Char) : List Char := (digits.reverse.dropWhile (· == '0')).reverse

def fixed (digits : List Char) (place : Int) : List Char :=
  if place ≤ 0 then '0' :: '.' :: zeros (-place).toNat ++ digits
  else if place < digits.length then digits.take place.toNat ++ '.' :: digits.drop place.toNat
  else digits ++ zeros (place.toNat - digits.length) ++ ['.', '0']

def withExponent (format : Layout) (digits : List Char) (place : Int) : List Char :=
  let power := place - 1
  let shown := Nat.toDigits 10 power.natAbs
  digits.take 1 ++ (if digits.length ≤ 1 then [] else '.' :: digits.drop 1) ++
    ['e', if power < 0 then '-' else '+'] ++ zeros (format.exponentWidth - shown.length) ++ shown

def render (format : Layout) (number : Scientific) : List Char :=
  if number.digits = 0 then ['0', '.', '0']
  else
    let all := Nat.toDigits 10 number.digits
    let place := all.length + number.exponent
    if format.leastPlace ≤ place && place ≤ format.greatestPlace then fixed (significant all) place
    else format.withExponent (significant all) place

end Layout

end AccessChain.Decimal
