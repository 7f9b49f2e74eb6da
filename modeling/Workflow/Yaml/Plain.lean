import Workflow.Text.Digits
import Workflow.Yaml.Node

/-!
# What plain scalars stand for

A plain scalar is nothing, a truth value or a number when it is written like one; every other one is a
text. Digits behind a leading zero write no number.
-/

namespace Workflow.Yaml

open Text

def isNull (text : String) : Bool :=
  ["~", "null", "Null", "NULL"].contains text

def isTruthValue (text : String) : Bool :=
  ["true", "True", "TRUE", "false", "False", "FALSE"].contains text

/-! ## Integers -/

def dropSign : List Char → List Char
  | '+' :: rest | '-' :: rest => rest
  | text => text

def isPadded (text : List Char) : Bool :=
  match dropSign text with
  | '0' :: d :: rest => (d :: rest).all isDigit
  | _ => false

/-- The number of a text without a sign: in base sixteen, eight or two, or ten. -/
def magnitude? : List Char → Option Nat
  | '0' :: 'x' :: rest => natural? 16 rest
  | '0' :: 'o' :: rest => natural? 8 rest
  | '0' :: 'b' :: rest => natural? 2 rest
  | text => if isPadded text then none else natural? 10 text

def unsigned? : List Char → Option Nat
  | '+' :: rest => magnitude? rest
  | text => magnitude? text

def isInteger (text : List Char) : Bool :=
  match text with
  | '-' :: rest => (magnitude? rest).any (· ≤ Nat.pow 2 127)
  | _ => (unsigned? text).any (· < Nat.pow 2 128)

/-! ## Decimals -/

/-- Digits and the power of ten that they count. -/
structure Decimal where
  digits : List Char
  exponent : Int
deriving DecidableEq, Repr

def exponent? (text : List Char) : Option Int :=
  let digits := dropSign text
  if digits.isEmpty || !digits.all isDigit then none
  else if text.head? = some '-' then some (-(ofDecimal digits : Int))
  else some (ofDecimal digits)

/-- A decimal without a sign; a digit may be missing on one side of the point. -/
def decimal? (text : List Char) : Option Decimal :=
  let whole := text.takeWhile isDigit
  let behind := text.dropWhile isDigit
  let (fraction, behind) := match behind with
    | '.' :: rest => (rest.takeWhile isDigit, rest.dropWhile isDigit)
    | _ => ([], behind)
  let digits := whole ++ fraction
  if digits.isEmpty then none
  else
    match behind with
    | [] => some ⟨digits, -(fraction.length : Int)⟩
    | e :: rest =>
      if e = 'e' ∨ e = 'E' then (exponent? rest).map fun n => ⟨digits, n - fraction.length⟩
      else none

def overflow : Nat := (Nat.pow 2 54 - 1) * Nat.pow 2 970

/--
Whether a decimal rounds to a finite double. Only one with 309 digits before its point has to be
compared; the others are clearly below or above.
-/
def Decimal.isFinite (d : Decimal) : Bool :=
  let n := ofDecimal d.digits
  let size := (Nat.toDigits 10 n).length + d.exponent
  if n = 0 ∨ size ≤ 308 then true
  else if 309 < size then false
  else if 0 ≤ d.exponent then n * Nat.pow 10 d.exponent.toNat < overflow
  else n < overflow * Nat.pow 10 (-d.exponent).toNat

/-- Whether a text writes a finite number, an infinity or no number at all. -/
def isFloat (text : List Char) : Bool :=
  let word := String.ofList text
  [".inf", ".Inf", ".INF", "+.inf", "+.Inf", "+.INF", "-.inf", "-.Inf", "-.INF",
    ".nan", ".NaN", ".NAN"].contains word ||
    (decimal? (dropSign text)).any Decimal.isFinite

/-! ## Texts -/

def isText (text : String) : Bool :=
  let chars := text.toList
  !(text == "" || isNull text || isTruthValue text || isInteger chars ||
    (!isPadded chars && isFloat chars))

end Workflow.Yaml
