import Workflow.Number.Shortest

/-!
# Texts of numbers

Two ways to write the shortest decimal of a double: `written`, positional for moderate magnitudes and
with an exponent for the rest, always marked as a fraction; and `positional`, which never uses an
exponent and writes whole numbers without a point.
-/

namespace Workflow

/-- Where the positional form of a written number ends. -/
structure Layout where
  /-- A number below `10 ^ largest` needs no exponent. -/
  largest : Int
  /-- Nor does one from `10 ^ smallest` on. -/
  smallest : Int

namespace Layout

/-- Numbers from `10 ^ (-5)` to below `10 ^ 16` are written positionally. -/
def standard : Layout := ⟨16, -5⟩

def zeros (n : Nat) : List Char := List.replicate n '0'

/-- All digits in place, with `whole` behind numbers without a fraction. -/
def place (digits : List Char) (exponent : Int) (whole : List Char) : List Char :=
  let point := digits.length + exponent
  if 0 ≤ exponent then digits ++ zeros exponent.toNat ++ whole
  else if 0 < point then digits.take point.toNat ++ '.' :: digits.drop point.toNat
  else ['0', '.'] ++ zeros (-point).toNat ++ digits

/-- An exponent with its sign, also that of a positive one. -/
def power (n : Int) : List Char :=
  if 0 ≤ n then '+' :: (toString n).toList else (toString n).toList

/-- One digit, the rest behind a point, and the exponent. -/
def scientific (digits : List Char) (exponent : Int) : List Char :=
  let exponent := power (digits.length + exponent - 1)
  match digits with
  | [d] => d :: 'e' :: exponent
  | d :: ds => d :: '.' :: ds ++ 'e' :: exponent
  | [] => []

def magnitude (layout : Layout) (x : Binary64) : List Char :=
  if x.isZero then ['0', '.', '0']
  else
    let d := x.shortest
    let digits := Nat.toDigits 10 d.digits
    let point := digits.length + d.exponent
    if layout.smallest < point ∧ point ≤ layout.largest then place digits d.exponent ['.', '0']
    else scientific digits d.exponent

end Layout

namespace Binary64

def sign (x : Binary64) : List Char :=
  if x.isNegative then ['-'] else []

/-- The shortest text that reads back and cannot be taken for an integer. -/
def written (x : Binary64) : String :=
  String.ofList (x.sign ++ Layout.standard.magnitude x)

/-- The shortest text that reads back, without an exponent. -/
def positional (x : Binary64) : String :=
  String.ofList <| x.sign ++
    if x.isZero then ['0']
    else Layout.place (Nat.toDigits 10 x.shortest.digits) x.shortest.exponent []

def hex (x : Binary64) : String :=
  let digits := Nat.toDigits 16 x.bits.toNat
  String.ofList (Layout.zeros (16 - digits.length) ++ digits)

end Binary64

end Workflow
