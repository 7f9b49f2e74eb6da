/-!
# Digits

Decimal and hexadecimal digits of ASCII, the numbers they write, and the length of a text in bytes.
-/

namespace Workflow.Text

def isDigit (c : Char) : Bool := '0' ≤ c && c ≤ '9'

def digitValue (c : Char) : Nat := c.toNat - '0'.toNat

/-- The value of a digit of a base up to sixteen, letters of either case. -/
def hexValue? (c : Char) : Option Nat :=
  if isDigit c then some (digitValue c)
  else if 'a' ≤ c ∧ c ≤ 'f' then some (c.toNat - 'a'.toNat + 10)
  else if 'A' ≤ c ∧ c ≤ 'F' then some (c.toNat - 'A'.toNat + 10)
  else none

def ofDigits (base : Nat) (digits : List Nat) : Nat :=
  digits.foldl (fun n d => base * n + d) 0

def ofDecimal (digits : List Char) : Nat :=
  ofDigits 10 (digits.map digitValue)

/-- The number that a text of at least one digit writes in a base up to sixteen. -/
def natural? (base : Nat) (text : List Char) : Option Nat :=
  match text.mapM hexValue? with
  | some (d :: ds) => if (d :: ds).all (· < base) then some (ofDigits base (d :: ds)) else none
  | _ => none

def byteLength : List Char → Nat
  | [] => 0
  | c :: rest => c.utf8Size + byteLength rest

end Workflow.Text
