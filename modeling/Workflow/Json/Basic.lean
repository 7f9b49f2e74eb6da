import Workflow.Number.Binary64

/-!
# JSON values

Values as they are stored in entities, callers and contexts. The members of an object that is stored are
kept in ascending order of their names, each name once (`Table.insert`); one that is only written keeps
the order of its fields. An integer stays an integer; every other number is a double.
-/

namespace Workflow

/-- A number: an integer of 64 bits, signed or unsigned, or a double. -/
inductive Number
  | int (value : Int)
  | float (value : Binary64)
deriving DecidableEq, Repr

def Number.toBinary64 : Number → Binary64
  | .int n => .ofInt n
  | .float x => x

inductive Json
  | null
  | bool (value : Bool)
  | num (value : Number)
  | str (value : String)
  | arr (items : List Json)
  | obj (members : List (String × Json))
deriving Repr, Inhabited

abbrev Table := List (String × Json)

namespace Table

def get? (table : Table) (name : String) : Option Json :=
  (table.find? fun m => m.1 == name).map (·.2)

/-- The table with the value under the name, in place of an earlier one. -/
def insert (name : String) (value : Json) : Table → Table
  | [] => [(name, value)]
  | m :: rest =>
    if name < m.1 then (name, value) :: m :: rest
    else if name = m.1 then (name, value) :: rest
    else m :: insert name value rest

/-- The table of the given members; of two with one name the later stays. -/
def ofList (members : List (String × Json)) : Table :=
  members.foldl (fun table m => insert m.1 m.2 table) []

theorem get?_insert_self (table : Table) (name : String) (value : Json) :
    get? (insert name value table) name = some value := by
  induction table with
  | nil => simp [insert, get?]
  | cons m rest ih =>
    simp only [insert]
    split
    · simp [get?]
    · split
      · simp [get?]
      · next h =>
        have : (m.1 == name) = false := by simpa using fun e => h e.symm
        simpa [get?, List.find?_cons, this] using ih

theorem get?_insert_of_ne (table : Table) {name other : String} (value : Json) (h : other ≠ name) :
    get? (insert name value table) other = get? table other := by
  have hne : (name == other) = false := by simpa using fun e => h e.symm
  induction table with
  | nil => simp [insert, get?, hne]
  | cons m rest ih =>
    simp only [insert]
    split
    · simp [get?, hne]
    · split
      · next e => subst e; simp [get?, hne]
      · by_cases hm : m.1 == other
        · simp [get?, hm]
        · simpa [get?, List.find?_cons, hm] using ih

end Table

namespace Json

def asString? : Json → Option String
  | .str s => some s
  | _ => none

def asInt? : Json → Option Int
  | .num (.int n) => if -(Nat.pow 2 63 : Nat) ≤ n ∧ n < (Nat.pow 2 63 : Nat) then some n else none
  | _ => none

def asBinary64? : Json → Option Binary64
  | .num n => some n.toBinary64
  | _ => none

/-- Everything is truthy but `null`, `false`, zero, and what is empty. -/
def isTruthy : Json → Bool
  | .null => false
  | .bool b => b
  | .num n => !n.toBinary64.isZero
  | .str s => s != ""
  | .arr items => !items.isEmpty
  | .obj members => !members.isEmpty

def int (n : Int) : Json := .num (.int n)

def object (members : List (String × Json)) : Json := .obj (Table.ofList members)

def ofString? (s : Option String) : Json := s.elim .null .str

def strings (texts : List String) : Json := .arr (texts.map .str)

end Json

end Workflow
