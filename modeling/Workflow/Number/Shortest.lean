import Workflow.Number.Binary64

/-!
# Shortest decimals

The decimal with the fewest digits among those that read back as a given double, and the nearest to
it among those of that length. A decimal of `k` digits that reads back exists exactly when one of the
two neighbours of the double on the grid of `k` digits does, so those two are tried for `k = 1, …, 17`.
-/

namespace Workflow

/-- A decimal `digits * 10 ^ exponent`. -/
structure Decimal where
  digits : Nat
  exponent : Int
deriving DecidableEq, Repr

namespace Decimal

/-- The same decimal without zeros at the end of its digits. -/
def trimZeros : Nat → Decimal → Decimal
  | 0, d => d
  | n + 1, d =>
    if d.digits ≠ 0 ∧ d.digits % 10 = 0 then trimZeros n ⟨d.digits / 10, d.exponent + 1⟩ else d

end Decimal

namespace Binary64

/-- Positive numbers that round to one double: a range of quarters of `2 ^ (-1074)`. -/
structure Interval where
  low : Nat
  high : Nat
  closed : Bool

def interval (x : Binary64) : Interval :=
  let gap := Nat.pow 2 (x.exponent - 1)
  let below := if x.fraction = 0 ∧ 1 < x.exponent then gap else 2 * gap
  ⟨4 * x.units - below, 4 * x.units + 2 * gap, x.fraction % 2 == 0⟩

def Interval.contains (i : Interval) (num den : Nat) : Bool :=
  if i.closed then i.low * den ≤ num && num ≤ i.high * den
  else i.low * den < num && num < i.high * den

def tenPow (e : Int) : Nat × Nat :=
  if 0 ≤ e then (Nat.pow 10 e.toNat, 1) else (1, Nat.pow 10 (-e).toNat)

/-- The greatest `e` with `10 ^ e` at most the value, for a positive finite double. -/
def decimalExponent (x : Binary64) : Int :=
  let guess : Int := ((x.units.log2 : Int) - 1074) * 30103 / 100000
  let fits (e : Int) : Bool :=
    let (num, den) := tenPow e
    num * Nat.pow 2 1074 ≤ x.units * den
  if fits (guess + 1) then guess + 1 else if fits guess then guess else guess - 1

/-- The nearest neighbour on the grid of multiples of `10 ^ e` that reads back, if one does. -/
def onGrid (x : Binary64) (e : Int) : Option Decimal :=
  let (num, den) := tenPow e
  let unit := 4 * num * Nat.pow 2 1074
  let scaled := 4 * x.units * den
  let i := x.interval
  let lower := scaled / unit
  let inside (d : Nat) : Bool := i.contains (d * unit) den
  let remainder := scaled % unit
  if inside lower && inside (lower + 1) then
    if 2 * remainder < unit || (2 * remainder == unit && lower % 2 == 0) then some ⟨lower, e⟩
    else some ⟨lower + 1, e⟩
  else if inside lower then some ⟨lower, e⟩
  else if inside (lower + 1) then some ⟨lower + 1, e⟩
  else none

/-- The shortest decimal that reads back as the positive finite double. -/
def shortest (x : Binary64) : Decimal :=
  let top := x.decimalExponent
  match (List.range 17).findSome? fun (k : Nat) => x.onGrid (top - k) with
  | some d => d.trimZeros 20
  | none => ⟨x.units, -1074⟩

end Binary64

end Workflow
