import Mathlib.Data.List.Forall2
import Workflow.Config.Load

/-!
# Values that variables stand for

A number of 64 bits is written in decimal digits, and the pool by one of three names. What is read of a variable is what
is written in this way and nothing else.
-/

namespace Workflow

open Text (isDigit digitValue hexValue? ofDecimal)

/-! ## Numbers -/

/-- At least one decimal digit, perhaps behind a plus, of a number of 64 bits. -/
def Word64 (text : String) (n : Nat) : Prop :=
  n < Nat.pow 2 64 ∧ ∃ digits, digits ≠ [] ∧ (∀ c ∈ digits, isDigit c) ∧ ofDecimal digits = n ∧
    (text.toList = digits ∨ text.toList = '+' :: digits)

/-- The letter itself, the capital of it or, for k, the kelvin sign. -/
def Spells (letter c : Char) : Prop :=
  c = letter ∨ c = letter.toUpper ∨ letter = 'k' ∧ c = '\u212a'

/-- The names of the pool, in letters of either case. -/
def IsPool (text : String) : Prop :=
  ∃ name ∈ ["blocking_pool", "blockingpool", "pool"], List.Forall₂ Spells name.toList text.toList

end Workflow
