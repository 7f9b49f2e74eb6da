/-!
# Binary64 numbers

A double-precision number is held by its 64 bits. Order, rounding, product, quotient and the test for
nearness are computed exactly on integers: the magnitude of a finite number is a whole number of
units of `2 ^ (-1074)`. No value of this library is a NaN.
-/

namespace Workflow

/-- A finite or infinite double-precision number. -/
structure Binary64 where
  bits : UInt64
deriving DecidableEq, Repr, Inhabited

namespace Binary64

def signBit : Nat := Nat.pow 2 63

def infinityBits : Nat := 0x7ff * Nat.pow 2 52

/-- The number with the given sign and the given bits below the sign. -/
def ofParts (negative : Bool) (rest : Nat) : Binary64 :=
  ⟨UInt64.ofNat (if negative then signBit + rest else rest)⟩

def isNegative (x : Binary64) : Bool :=
  signBit ≤ x.bits.toNat

def rest (x : Binary64) : Nat :=
  x.bits.toNat % signBit

def isInfinite (x : Binary64) : Bool :=
  x.rest == infinityBits

def exponent (x : Binary64) : Nat :=
  x.rest / Nat.pow 2 52

def fraction (x : Binary64) : Nat :=
  x.rest % Nat.pow 2 52

/-- The magnitude in units of `2 ^ (-1074)`; infinity counts as the next power of two. -/
def units (x : Binary64) : Nat :=
  if x.exponent = 0 then x.fraction else (Nat.pow 2 52 + x.fraction) * Nat.pow 2 (x.exponent - 1)

def value (x : Binary64) : Int :=
  if x.isNegative then -(x.units : Int) else x.units

def isZero (x : Binary64) : Bool :=
  x.rest == 0

def neg (x : Binary64) : Binary64 :=
  ofParts (!x.isNegative) x.rest

/-! ## Order -/

def lt (x y : Binary64) : Bool := x.value < y.value

def le (x y : Binary64) : Bool := x.value ≤ y.value

/--
Whether the rounded difference is below `2 ^ (-52)`. Differences that round up to that bound are those
from `2 ^ 1022 - 2 ^ 968` units on.
-/
def isNear (x y : Binary64) : Bool :=
  (x.value - y.value).natAbs < Nat.pow 2 1022 - Nat.pow 2 968

/-! ## Rounding -/

/-- The quotient rounded to the nearest whole number, a tie to the even one. -/
def roundDiv (num den : Nat) : Nat :=
  let q := num / den
  let r := num % den
  if den < 2 * r || (2 * r == den && q % 2 == 1) then q + 1 else q

/-- The bits of the double nearest to the positive quotient, ties to even, too large ones infinite. -/
def nearestBits (num den : Nat) : Nat :=
  let scaled := num * Nat.pow 2 1074
  let shift := (scaled / den).log2 - 52
  min infinityBits (shift * Nat.pow 2 52 + roundDiv scaled (den * Nat.pow 2 shift))

/-- The double nearest to a quotient of natural numbers with a sign. -/
def ofRatio (negative : Bool) (num den : Nat) : Binary64 :=
  ofParts negative (nearestBits num den)

def ofNat (n : Nat) : Binary64 :=
  ofRatio false n 1

def ofInt (n : Int) : Binary64 :=
  ofRatio (n < 0) n.natAbs 1

/-! ## Arithmetic on finite numbers -/

def mul (x y : Binary64) : Binary64 :=
  ofRatio (x.isNegative != y.isNegative) (x.units * y.units) (Nat.pow 2 2148)

def div (x y : Binary64) : Binary64 :=
  ofRatio (x.isNegative != y.isNegative) x.units y.units

end Binary64

end Workflow
