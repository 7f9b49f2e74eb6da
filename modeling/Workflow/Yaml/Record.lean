import Workflow.Yaml.Plain

/-!
# Reading records from YAML

A record is a mapping with known keys; an absent scalar counts as an empty mapping or sequence. Every
reader of collections is given how many of them may still stand inside one another.
-/

namespace Workflow.Yaml

abbrev NodeReader (α : Type) := Node → Option α

def maxDepth : Nat := 128

/-! ## Scalars -/

def optionalText : NodeReader (Option String)
  | .plain s => some (if s == "" || isNull s then none else some s)
  | .quoted s => some (some s)
  | _ => none

def naturalBelow (bound : Nat) : NodeReader Nat
  | .plain s => (unsigned? s.toList).filter (· < bound)
  | _ => none

/-! ## Sequences -/

def list {α : Type} (depth : Nat) (item : Nat → NodeReader α) : NodeReader (List α)
  | .plain s => if s = "" then some [] else none
  | .sequence nodes =>
    match depth with
    | 0 => none
    | d + 1 => nodes.mapM (item d)
  | _ => none

def texts (depth : Nat) : NodeReader (List String) :=
  list depth fun _ => Node.text?

def textOrTexts (depth : Nat) : NodeReader (List String)
  | .plain s => if isText s then some [s] else none
  | .quoted s => some [s]
  | node => texts depth node

/-! ## Records -/

/-- A field of a record: its key, whether it may be absent, and how its value is stored. -/
structure RecordField (σ : Type) where
  name : String
  required : Bool
  store : Node → σ → Option σ

def RecordField.of {α σ : Type} (name : String) (required : Bool) (read : NodeReader α)
    (set : α → σ → σ) : RecordField σ :=
  ⟨name, required, fun node s => (read node).map fun a => set a s⟩

/-- One member of a record with the names seen before it; unknown ones are passed over. -/
def storeMember {σ : Type} (fields : List (RecordField σ)) (s : σ × List String) (member : Node × Node) :
    Option (σ × List String) := do
  let name ← member.1.text?
  match fields.find? fun f => f.name == name with
  | some f => if s.2.contains name then none else return (← f.store member.2 s.1, name :: s.2)
  | none => return s

/-- The members of a record, those that are required among them. -/
def ofMembers {σ : Type} (fields : List (RecordField σ)) (blank : σ) (members : List (Node × Node)) :
    Option σ := do
  let (s, seen) ← members.foldlM (storeMember fields) (blank, [])
  if fields.all fun f => !f.required || seen.contains f.name then return s else none

def record {σ : Type} (depth : Nat) (fields : Nat → List (RecordField σ)) (blank : σ) : NodeReader σ
  | .plain s => if s = "" then ofMembers (fields 0) blank [] else none
  | .mapping members =>
    match depth with
    | 0 => none
    | d + 1 => ofMembers (fields d) blank members
  | _ => none

end Workflow.Yaml
