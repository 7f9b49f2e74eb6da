import Mathlib.Data.List.DropRight
import Workflow.Guard.Parser

/-!
# The grammar of guards

    or    := and ('||' and)*
    and   := unary ('&&' unary)*
    unary := '!' unary | '(' or ')' | field | field ('==' | '!=') literal
           | field ('>=' | '<=' | '>' | '<') number

White space may stand between the tokens; a field, a literal and a number are each one token.
-/

namespace Workflow.Guard

open Text (isBlank isDigit ofDecimal)

/-- White space, or nothing. -/
def Gap (text : List Char) : Prop :=
  ∀ c ∈ text, isBlank c

/-! ## Tokens -/

def isNameChar (c : Char) : Bool :=
  Text.isAlphanumeric c || c == '_'

def Root.text : Root → List Char
  | .ctx => ['c', 't', 'x', '.']
  | .user => ['u', 's', 'e', 'r', '.']

def Path.text (p : Path) : List Char :=
  p.root.text ++ ['.'].intercalate (p.parts.map String.toList)

/-- The paths that can be written. -/
structure Path.IsField (p : Path) : Prop where
  nonempty : p.parts ≠ []
  names : ∀ part ∈ p.parts, part ≠ "" ∧ ∀ c ∈ part.toList, isNameChar c

def minus (negative : Bool) : List Char :=
  if negative then ['-'] else []

/-- The texts of numbers, each with the double nearest to it. -/
inductive Numeral : List Char → Binary64 → Prop
  | whole (negative : Bool) {digits : List Char} (hsome : digits ≠ []) (hdigits : ∀ c ∈ digits, isDigit c) :
      Numeral (minus negative ++ digits) (.ofRatio negative (ofDecimal digits) 1)
  | point (negative : Bool) {digits decimals : List Char} (hsome : digits ++ decimals ≠ [])
      (hdigits : ∀ c ∈ digits, isDigit c) (hdecimals : ∀ c ∈ decimals, isDigit c) :
      Numeral (minus negative ++ (digits ++ '.' :: decimals))
        (.ofRatio negative (ofDecimal (digits ++ decimals)) (Nat.pow 10 decimals.length))

inductive Literal : List Char → Constant → Prop
  | true : Literal ['t', 'r', 'u', 'e'] (.bool true)
  | false : Literal ['f', 'a', 'l', 's', 'e'] (.bool false)
  | null : Literal ['n', 'u', 'l', 'l'] .null
  | quoted {s : String} (hs : '"' ∉ s.toList) : Literal ('"' :: s.toList ++ ['"']) (.str s)
  | number {text : List Char} {x : Binary64} (hx : Numeral text x) (hfinite : x.isInfinite = false) :
      Literal text (.num x)

def Comparison.text : Comparison → List Char
  | .gt => ['>']
  | .ge => ['>', '=']
  | .lt => ['<']
  | .le => ['<', '=']

/-! ## Expressions -/

inductive Level
  | or
  | and
  | unary

/-- `Derives level text g`: the text, which neither begins nor ends with a gap, is an expression of the level,
and its tree is `g`. -/
inductive Derives : Level → List Char → Guard → Prop
  | truthy {p : Path} (hp : p.IsField) : Derives .unary p.text (.truthy p)
  | equals {p : Path} {b b' s : List Char} {c : Constant} (hp : p.IsField) (hb : Gap b) (hb' : Gap b')
      (hs : Literal s c) : Derives .unary (p.text ++ b ++ ['=', '='] ++ b' ++ s) (.equals p c)
  | differs {p : Path} {b b' s : List Char} {c : Constant} (hp : p.IsField) (hb : Gap b) (hb' : Gap b')
      (hs : Literal s c) : Derives .unary (p.text ++ b ++ ['!', '='] ++ b' ++ s) (.differs p c)
  | compare {p : Path} {b b' s : List Char} {x : Binary64} (op : Comparison) (hp : p.IsField) (hb : Gap b)
      (hb' : Gap b') (hs : Numeral s x) :
      Derives .unary (p.text ++ b ++ op.text ++ b' ++ s) (.compare op p x)
  | not {b s : List Char} {g : Guard} (hb : Gap b) (hs : Derives .unary s g) :
      Derives .unary ('!' :: b ++ s) (.not g)
  | group {b b' s : List Char} {g : Guard} (hb : Gap b) (hs : Derives .or s g) (hb' : Gap b') :
      Derives .unary ('(' :: b ++ s ++ b' ++ [')']) g
  | unary {s : List Char} {g : Guard} (hs : Derives .unary s g) : Derives .and s g
  | and {b b' s t : List Char} {l r : Guard} (hs : Derives .and s l) (hb : Gap b) (hb' : Gap b')
      (ht : Derives .unary t r) : Derives .and (s ++ b ++ ['&', '&'] ++ b' ++ t) (.and l r)
  | conjunction {s : List Char} {g : Guard} (hs : Derives .and s g) : Derives .or s g
  | or {b b' s t : List Char} {l r : Guard} (hs : Derives .or s l) (hb : Gap b) (hb' : Gap b')
      (ht : Derives .and t r) : Derives .or (s ++ b ++ ['|', '|'] ++ b' ++ t) (.or l r)

/-! ## Gaps -/

namespace Gap

variable {a b text rest : List Char}

@[simp] theorem nil : Gap [] := by simp [Gap]

@[simp] theorem append_iff : Gap (a ++ b) ↔ Gap a ∧ Gap b := by
  simp [Gap, or_imp, forall_and]

theorem trimStart_append (h : Gap b) : Text.trimStart (b ++ text) = Text.trimStart text :=
  List.dropWhile_append_of_pos h

theorem of_trimStart (h : Text.trimStart b = []) : Gap b :=
  fun _ hc => List.dropWhile_eq_nil_iff.1 h _ hc

end Gap

theorem exists_gap (text : List Char) : ∃ b, Gap b ∧ text = b ++ Text.trimStart text :=
  ⟨text.takeWhile isBlank, fun _ hc => List.mem_takeWhile_imp hc,
    List.takeWhile_append_dropWhile.symm⟩

theorem trimStart_cons {c : Char} {text : List Char} (hc : isBlank c = false) :
    Text.trimStart (c :: text) = c :: text := by
  simp [Text.trimStart, hc]

@[simp] theorem trimStart_trimStart (text : List Char) :
    Text.trimStart (Text.trimStart text) = Text.trimStart text :=
  List.dropWhile_idempotent ..

theorem trimStart_length_le (text : List Char) : (Text.trimStart text).length ≤ text.length :=
  List.length_dropWhile_le ..

/-- A trimmed text does not begin with a gap. -/
theorem Gap.eq_nil_of_trim {text b s : List Char} (hb : Gap b) (h : Text.trim text = b ++ s) : b = [] := by
  obtain ⟨trail, htrail⟩ : Text.trim text <+: Text.trimStart text := List.rdropWhile_prefix ..
  cases b with
  | nil => rfl
  | cons c b =>
      have hidem := trimStart_trimStart text
      rw [← htrail, h, List.append_assoc, hb.trimStart_append] at hidem
      have hle := trimStart_length_le (s ++ trail)
      rw [hidem, List.cons_append, List.length_cons, List.length_append] at hle
      omega

/-- Nor does it end with one. -/
theorem Gap.eq_nil_of_trim_append {text s b : List Char} (hb : Gap b) (h : Text.trim text = s ++ b) :
    b = [] := by
  by_contra hne
  have hlast := List.rdropWhile_last_not isBlank (Text.trimStart text)
  change ∀ hl : Text.trim text ≠ [], ¬ isBlank ((Text.trim text).getLast hl) at hlast
  simp only [h, List.getLast_append_of_ne_nil _ hne] at hlast
  exact hlast (by simp [hne]) (hb _ (List.getLast_mem hne))

end Workflow.Guard
