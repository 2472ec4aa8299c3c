/-!
# Binary floating-point numbers of double precision

A number is its 64-bit pattern: sign, eleven exponent bits, 52 fraction bits.  Comparison is the
numeric one: a NaN equals nothing, and the two zeros are equal.  `Binary64.ofDecimal` takes the
pattern nearest to a decimal, a tie going to the even fraction, by exact integer arithmetic.

There is no arithmetic on these numbers here: they are compared, read and written.
-/
namespace Statechart

/-- A double-precision number, by its bit pattern. -/
structure Binary64 where
  /-- Sign, exponent and fraction, from the highest bit down. -/
  bits : UInt64
  deriving DecidableEq, Repr

namespace Binary64

/-- The sign bit. -/
def signBit : Nat := 0x8000000000000000

/-- The bit above the fraction. -/
def hiddenBit : Nat := 0x10000000000000

/-- The pattern of positive infinity, above every finite pattern. -/
def infinityBits : Nat := 0x7ff0000000000000

/-- A number from the pattern of its magnitude and its sign. -/
def ofMagnitude (negative : Bool) (magnitude : Nat) : Binary64 :=
  ⟨UInt64.ofNat (if negative then signBit + magnitude else magnitude)⟩

/-- The pattern without its sign. -/
def magnitude (x : Binary64) : Nat := x.bits.toNat % signBit

/-- The sign bit is set. -/
def isNegative (x : Binary64) : Bool := signBit ≤ x.bits.toNat

/-- Not a number. -/
def isNaN (x : Binary64) : Bool := infinityBits < x.magnitude

/-- One of the two infinities. -/
def isInfinite (x : Binary64) : Bool := x.magnitude = infinityBits

/-- One of the two zeros. -/
def isZero (x : Binary64) : Bool := x.magnitude = 0

/-- Numeric equality. -/
def equal (x y : Binary64) : Bool :=
  !x.isNaN && !y.isNaN && ((x.isZero && y.isZero) || x.bits == y.bits)

/-- A quiet NaN. -/
def nan : Binary64 := ⟨0x7ff8000000000000⟩

/-- An infinity of the given sign. -/
def infinity (negative : Bool) : Binary64 := ofMagnitude negative infinityBits

theorem equal_comm (x y : Binary64) : x.equal y = y.equal x := by
  simp only [equal, Bool.beq_comm (a := x.bits)]
  cases x.isNaN <;> cases y.isNaN <;> cases x.isZero <;> cases y.isZero <;> rfl

theorem equal_trans {x y z : Binary64} (h : x.equal y = true) (k : y.equal z = true) :
    x.equal z = true := by
  simp only [equal, Bool.and_eq_true, Bool.or_eq_true, Bool.not_eq_true', beq_iff_eq] at h k ⊢
  obtain ⟨⟨hx, hy⟩, h⟩ := h
  obtain ⟨⟨_, hz⟩, k⟩ := k
  refine ⟨⟨hx, hz⟩, ?_⟩
  rcases h with ⟨hx0, hy0⟩ | h <;> rcases k with ⟨ky0, kz0⟩ | k
  · exact .inl ⟨hx0, kz0⟩
  · exact .inl ⟨hx0, by rwa [isZero, magnitude, ← k]⟩
  · exact .inl ⟨by rwa [isZero, magnitude, h], kz0⟩
  · exact .inr (h.trans k)

/-- `num / den` rounded to the nearest integer, a tie to the even one. -/
def roundHalfEven (num den : Nat) : Nat :=
  let q := num / den
  let r := num % den
  if 2 * r < den then q else if den < 2 * r then q + 1 else if q % 2 = 0 then q else q + 1

/-- Exponent of the last place of a number near `num / den`: 53 places, or the smallest there is.
The logarithms put the quotient within a factor of two, so at most one correction is due. -/
def lastPlace (num den : Nat) : Int :=
  let guess : Int := (Nat.log2 num : Int) - (Nat.log2 den : Int) - 52
  let fits := if 0 ≤ guess then den * hiddenBit * Nat.pow 2 guess.toNat ≤ num
    else den * hiddenBit ≤ num * Nat.pow 2 (-guess).toNat
  max (if fits then guess else guess - 1) (-1074)

/-- The magnitude nearest to `num / den`. -/
def nearestMagnitude (num den : Nat) : Nat :=
  if num = 0 then 0
  else
    let place := lastPlace num den
    let whole := if 0 ≤ place then roundHalfEven num (den * Nat.pow 2 place.toNat)
      else roundHalfEven (num * Nat.pow 2 (-place).toNat) den
    min infinityBits ((place + 1074).toNat * hiddenBit + whole)

/-- The number nearest to `digits · 10 ^ exponent`.  Exponents that settle the answer by
themselves are not computed with. -/
def ofDecimal (negative : Bool) (digits : Nat) (exponent : Int) : Binary64 :=
  let size := (Nat.toDigits 10 digits).length
  if digits = 0 then ofMagnitude negative 0
  else if 400 < exponent + size then infinity negative
  else if exponent + size < -400 then ofMagnitude negative 0
  else if 0 ≤ exponent then
    ofMagnitude negative (nearestMagnitude (digits * Nat.pow 10 exponent.toNat) 1)
  else ofMagnitude negative (nearestMagnitude digits (Nat.pow 10 (-exponent).toNat))

end Binary64

end Statechart
