/-!
# Sets of names

A set of names is kept as the list of its members in ascending order, each once.
-/

namespace Workflow.Names

def insert (name : String) : List String → List String
  | [] => [name]
  | n :: rest =>
    if name < n then name :: n :: rest
    else if name = n then n :: rest
    else n :: insert name rest

def ofList (names : List String) : List String :=
  names.foldr insert []

theorem mem_insert {a name : String} {names : List String} :
    a ∈ insert name names ↔ a = name ∨ a ∈ names := by
  induction names with
  | nil => simp [insert]
  | cons n rest ih =>
    simp only [insert]
    split
    · simp
    · split
      · next h => subst h; simp
      · simp only [List.mem_cons, ih]
        constructor
        · rintro (h | h | h) <;> simp [h]
        · rintro (h | h | h) <;> simp [h]

@[simp] theorem mem_ofList {a : String} {names : List String} : a ∈ ofList names ↔ a ∈ names := by
  induction names with
  | nil => simp [ofList]
  | cons n rest ih => simp only [ofList, List.foldr_cons, mem_insert, List.mem_cons] at ih ⊢; rw [ih]

def Ascending (names : List String) : Prop :=
  names.Pairwise (· < ·)

theorem ascending_insert {name : String} {names : List String} (h : Ascending names) :
    Ascending (insert name names) := by
  induction names with
  | nil => simp [insert, Ascending]
  | cons n rest ih =>
    obtain ⟨hn, hrest⟩ := List.pairwise_cons.1 h
    simp only [insert]
    split
    · next hlt =>
      refine List.pairwise_cons.2 ⟨fun a ha => ?_, h⟩
      rcases List.mem_cons.1 ha with rfl | ha
      · exact hlt
      · exact String.lt_trans hlt (hn a ha)
    · split
      · exact h
      · next hlt hne =>
        refine List.pairwise_cons.2 ⟨fun a ha => ?_, ih hrest⟩
        rcases mem_insert.1 ha with rfl | ha
        · exact String.not_le.1 fun h => hne (String.le_antisymm h (String.not_lt.1 hlt))
        · exact hn a ha

theorem ascending_ofList (names : List String) : Ascending (ofList names) := by
  induction names with
  | nil => simp [ofList, Ascending]
  | cons n rest ih => exact ascending_insert ih

end Workflow.Names
