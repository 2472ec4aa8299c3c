import Statechart.Real.Binary64

/-!
# Shortest decimal text

A finite number is written with the fewest digits that read back as it, and of those the digits
nearest to it.  The search is exact: a number is `whole · 2 ^ place`, and the reals that round to
it reach half a place to either side, less far below a power of two.
-/
namespace Statechart.Binary64

/-- A decimal: its digits as an integer, and the power of ten of the last digit. -/
structure Decimal where
  /-- The digits, without leading zeros. -/
  digits : Nat
  /-- Power of ten of the last digit. -/
  exponent : Int
  deriving DecidableEq, Repr

/-- The integer part of a finite magnitude in units of its last place. -/
def whole (magnitude : Nat) : Nat :=
  let fraction := magnitude % hiddenBit
  if magnitude / hiddenBit = 0 then fraction else hiddenBit + fraction

/-- Exponent of the last place of a finite magnitude. -/
def place (magnitude : Nat) : Int :=
  let exponent : Nat := magnitude / hiddenBit
  if exponent = 0 then -1074 else (exponent : Int) - 1075

/-- `n · 2 ^ two · 10 ^ ten` as a fraction. -/
def scaled (n : Nat) (two ten : Int) : Nat × Nat :=
  let top (base : Nat) (e : Int) := if 0 ≤ e then Nat.pow base e.toNat else 1
  let bottom (base : Nat) (e : Int) := if 0 ≤ e then 1 else Nat.pow base (-e).toNat
  (n * top 2 two * top 10 ten, bottom 2 two * bottom 10 ten)

/-- The decimal reads back as the magnitude. -/
def readsBack (magnitude : Nat) (d : Decimal) : Bool :=
  let fraction := scaled d.digits 0 d.exponent
  nearestMagnitude fraction.1 fraction.2 = magnitude

/-- Power of ten of the first digit of the magnitude. -/
def leadingExponent (magnitude : Nat) : Int :=
  let fraction := scaled (whole magnitude) (place magnitude) 0
  let reaches (e : Int) :=
    let bound := scaled 1 0 e
    bound.1 * fraction.2 ≤ fraction.1 * bound.2
  let guess : Int := ((place magnitude + (Nat.log2 (whole magnitude) : Int)) * 30103).fdiv 100000
  if reaches (guess + 1) then guess + 1 else if reaches guess then guess else guess - 1

/-- The decimal of `count` digits nearest to the magnitude, if one reads back as it.  A tie goes
away from zero. -/
def nearestOfLength? (magnitude count : Nat) : Option Decimal :=
  let exponent := leadingExponent magnitude - (count : Int) + 1
  let fraction := scaled (whole magnitude) (place magnitude) (-exponent)
  let low := fraction.1 / fraction.2
  let upNearer := fraction.2 ≤ 2 * (fraction.1 % fraction.2)
  let near : Decimal := ⟨if upNearer then low + 1 else low, exponent⟩
  let far : Decimal := ⟨if upNearer then low else low + 1, exponent⟩
  if readsBack magnitude near then some near
  else if readsBack magnitude far then some far else none

/-- The shortest decimal of a magnitude that is finite and not zero. -/
def shortest (magnitude : Nat) : Decimal :=
  ((List.range' 1 17).findSome? (nearestOfLength? magnitude)).getD ⟨0, 0⟩

/-- The digits without zeros at their end. -/
def trimZeros (digits : List Char) : List Char :=
  (digits.reverse.dropWhile (· = '0')).reverse

/-- Numbers from `10 ^ (-4)` up to `10 ^ 16` are positional and always show a fraction; others
have one digit before the point and an exponent. -/
def magnitudeText (magnitude : Nat) : List Char :=
  if magnitude = 0 then ['0', '.', '0']
  else
    let d := shortest magnitude
    let digits := Nat.toDigits 10 d.digits
    let leading : Int := d.exponent + digits.length - 1
    let digits := trimZeros digits
    if 0 ≤ leading ∧ leading < 16 then
      let before := leading.toNat + 1
      let front := digits.take before
      let back := digits.drop before
      front ++ List.replicate (before - front.length) '0' ++ '.' :: (if back = [] then ['0'] else back)
    else if -4 ≤ leading ∧ leading < 0 then
      ['0', '.'] ++ List.replicate (-leading - 1).toNat '0' ++ digits
    else
      let point := if digits.length = 1 then [] else '.' :: digits.drop 1
      digits.take 1 ++ point ++ 'e' :: (toString leading).toList

/-- The number as text. -/
def text (x : Binary64) : String :=
  if x.isNaN then "NaN"
  else
    let sign := if x.isNegative then ['-'] else []
    if x.isInfinite then String.ofList (sign ++ ['i', 'n', 'f'])
    else String.ofList (sign ++ magnitudeText x.magnitude)

end Statechart.Binary64
