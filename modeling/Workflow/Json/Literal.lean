import Workflow.Json.Basic
import Workflow.Text.Digits

/-!
# Number literals

What a number literal stands for. Digits are gathered into 64 bits: those of the whole part that no
longer fit count as powers of ten, those of the fraction are dropped. The gathered digits and the power
of ten are rounded separately, so a literal of many digits may miss the nearest double by a little.
-/

namespace Workflow.Json

/-- A number literal by its digits. -/
structure Literal where
  negative : Bool
  whole : List Nat
  fraction : Option (List Nat)
  /-- The digits of the exponent and whether they stand behind a minus. -/
  exponent : Option (Bool × List Nat)
deriving DecidableEq, Repr

namespace Literal

/-- Appends digits as long as the result fits in 64 bits; also gives the digits left over. -/
def gather (n : Nat) : List Nat → Nat × List Nat
  | [] => (n, [])
  | d :: ds => if 10 * n + d < Nat.pow 2 64 then gather (10 * n + d) ds else (n, d :: ds)

def power (n : Nat) : Binary64 := .ofNat (Nat.pow 10 n)

def divideByPower (x : Binary64) (n : Nat) : Binary64 :=
  if x.isZero then x
  else if n ≤ 308 then x.div (power n)
  else divideByPower (x.div (power 308)) (n - 308)
termination_by n

/-- The double for `n * 10 ^ e`, none when it is too large. -/
def scale (n : Nat) (e : Int) : Option Binary64 :=
  let x := Binary64.ofNat n
  if e < 0 then some (divideByPower x (-e).toNat)
  else if n = 0 then some x
  else if e ≤ 308 then
    let y := x.mul (power e.toNat)
    if y.isInfinite then none else some y
  else none

/-- The magnitude as a double; exponents beyond 31 bits leave nothing or too much. -/
def magnitude (l : Literal) : Option Binary64 :=
  let (n, left) := gather 0 l.whole
  let fraction := l.fraction.getD []
  let (n, dropped) := gather n fraction
  let start : Int := left.length - (fraction.length - dropped.length)
  match l.exponent with
  | none => scale n start
  | some (negative, digits) =>
    let e := Text.ofDigits 10 digits
    if Nat.pow 2 31 ≤ e then
      if n = 0 ∨ negative then some (.ofNat 0) else none
    else scale n (if negative then start - e else start + e)

/-- The integer a literal without fraction and exponent stands for; zero with a sign is none. -/
def integer? (l : Literal) : Option Int :=
  match l.fraction, l.exponent with
  | none, none =>
    let n := Text.ofDigits 10 l.whole
    if l.negative then
      if 0 < n ∧ n ≤ Nat.pow 2 63 then some (-(n : Int)) else none
    else if n < Nat.pow 2 64 then some n else none
  | _, _ => none

/-- The number of a literal, none when it is too large for a double. -/
def value (l : Literal) : Option Number :=
  match l.integer? with
  | some n => some (.int n)
  | none => l.magnitude.map fun x => .float (if l.negative then x.neg else x)

end Literal

end Workflow.Json
