import Workflow.Error

/-!
# Entity store

The stored entities, at most one for each kind and id. Reading and writing go through the three calls
`fetch`, `getField` and `setField`; the rest is for whoever owns the store.
-/

namespace Workflow

structure EntityStore where
  entities : List Entity
deriving Repr, Inhabited

namespace EntityStore

def empty : EntityStore := ⟨[]⟩

/-- Whether an entity is the one with the given kind and id. -/
def isAt (kind id : String) (e : Entity) : Bool :=
  e.kind == kind && e.id == id

def find? (s : EntityStore) (kind id : String) : Option Entity :=
  s.entities.find? (isAt kind id)

/-- Stores an entity in place of one with the same kind and id. -/
def insert (s : EntityStore) (e : Entity) : EntityStore :=
  ⟨e :: s.entities.filter fun x => !isAt e.kind e.id x⟩

def remove (s : EntityStore) (kind id : String) : EntityStore :=
  ⟨s.entities.filter fun x => !isAt kind id x⟩

def contains (s : EntityStore) (kind id : String) : Bool :=
  (s.find? kind id).isSome

def size (s : EntityStore) : Nat :=
  s.entities.length

/-! ## Calls -/

def fetch (s : EntityStore) (kind id : String) : Except EngineError Entity :=
  match s.find? kind id with
  | some e => .ok e
  | none => .error (.entityNotFound kind id)

def getField (s : EntityStore) (key : StateKey) : Except EngineError Json := do
  let e ← s.fetch key.kind key.id
  match e.get? key.field with
  | some value => return value
  | none => .error (.fieldNotFound key)

def setField (s : EntityStore) (key : StateKey) (value : Json) : Except EngineError EntityStore := do
  let _ ← s.fetch key.kind key.id
  return ⟨s.entities.map fun x => if isAt key.kind key.id x then x.set key.field value else x⟩

/-! ## What the operations do to look-ups -/

theorem find?_remove_self (s : EntityStore) (kind id : String) :
    (s.remove kind id).find? kind id = none := by
  simp [remove, find?, List.find?_eq_none]

theorem find?_remove_of_ne (s : EntityStore) {kind id kind' id' : String}
    (hne : ¬ (kind = kind' ∧ id = id')) : (s.remove kind id).find? kind' id' = s.find? kind' id' := by
  have hagree : (fun e : Entity => decide ((!isAt kind id e) = true ∧ isAt kind' id' e = true)) =
      isAt kind' id' := by
    funext e
    cases hat : isAt kind' id' e with
    | false => simp
    | true =>
        obtain ⟨rfl, rfl⟩ : e.kind = kind' ∧ e.id = id' := by simpa [isAt] using hat
        have hother : isAt kind id e = false :=
          Bool.eq_false_iff.2 fun hat => by
            simp only [isAt, Bool.and_eq_true, beq_iff_eq] at hat
            exact hne ⟨hat.1.symm, hat.2.symm⟩
        simp [hother]
  rw [find?, remove, List.find?_filter, hagree, find?]

theorem fetch_eq_ok {s : EntityStore} {kind id : String} {e : Entity} (h : s.fetch kind id = .ok e) :
    s.find? kind id = some e := by
  unfold fetch at h
  split at h
  · cases h
    assumption
  · cases h

theorem fetch_eq_error {s : EntityStore} {kind id : String} {err : EngineError}
    (h : s.fetch kind id = .error err) : s.find? kind id = none ∧ err = .entityNotFound kind id := by
  unfold fetch at h
  split at h
  · cases h
  · cases h
    exact ⟨‹_›, rfl⟩

theorem find?_setField {s s' : EntityStore} {key : StateKey} {value : Json}
    (h : s.setField key value = .ok s') (kind id : String) :
    s'.find? kind id = (s.find? kind id).map fun e =>
      if isAt key.kind key.id e then e.set key.field value else e := by
  cases hfetch : s.fetch key.kind key.id with
  | error e =>
      simp only [setField, hfetch] at h
      cases h
  | ok e =>
      simp only [setField, hfetch] at h
      cases h
      have hkept : (isAt kind id ∘ fun x => if isAt key.kind key.id x then x.set key.field value else x) =
          isAt kind id := by
        funext x
        dsimp only [Function.comp]
        split <;> rfl
      rw [find?, List.find?_map, hkept, find?]

theorem isSome_find?_setField {s s' : EntityStore} {key : StateKey} {value : Json}
    (h : s.setField key value = .ok s') (kind id : String) :
    (s'.find? kind id).isSome = (s.find? kind id).isSome := by
  rw [find?_setField h, Option.isSome_map]

theorem isAt_of_find? {s : EntityStore} {kind id : String} {e : Entity} (h : s.find? kind id = some e) :
    e.kind = kind ∧ e.id = id := by
  simpa [isAt] using List.find?_some h

/-- Only an entity that is there can be written. -/
theorem find?_of_setField {s s' : EntityStore} {key : StateKey} {value : Json}
    (h : s.setField key value = .ok s') : ∃ e, s.find? key.kind key.id = some e := by
  cases hfound : s.find? key.kind key.id with
  | none =>
      simp only [setField, fetch, hfound] at h
      cases h
  | some e => exact ⟨e, rfl⟩

theorem setField_of_none {s : EntityStore} (key : StateKey) (h : s.find? key.kind key.id = none) (value : Json) :
    s.setField key value = .error (.entityNotFound key.kind key.id) := by
  simp only [setField, fetch, h]
  rfl

theorem setField_of_some {s : EntityStore} (key : StateKey) {e : Entity} (h : s.find? key.kind key.id = some e)
    (value : Json) : ∃ s', s.setField key value = .ok s' := by
  simp only [setField, fetch, h]
  exact ⟨_, rfl⟩

theorem find?_setField_self {s s' : EntityStore} {key : StateKey} {value : Json} {e : Entity}
    (h : s.setField key value = .ok s') (he : s.find? key.kind key.id = some e) :
    s'.find? key.kind key.id = some (e.set key.field value) := by
  obtain ⟨hkind, hid⟩ := isAt_of_find? he
  simp [find?_setField h, he, isAt, hkind, hid]

theorem find?_setField_of_ne {s s' : EntityStore} {key : StateKey} {value : Json} {kind id : String}
    (h : s.setField key value = .ok s') (hne : ¬ (key.kind = kind ∧ key.id = id)) :
    s'.find? kind id = s.find? kind id := by
  rw [find?_setField h]
  cases hfound : s.find? kind id with
  | none => rfl
  | some e =>
      obtain ⟨rfl, rfl⟩ := isAt_of_find? hfound
      have hother : isAt key.kind key.id e = false :=
        Bool.eq_false_iff.2 fun hat => by
          simp only [isAt, Bool.and_eq_true, beq_iff_eq] at hat
          exact hne ⟨hat.1.symm, hat.2.symm⟩
      simp [hother]

/-- What is read of a field depends on nothing else. -/
theorem getField_congr {s s' : EntityStore} {k : StateKey}
    (h : (s.find? k.kind k.id).map (·.get? k.field) = (s'.find? k.kind k.id).map (·.get? k.field)) :
    s.getField k = s'.getField k := by
  cases he : s.find? k.kind k.id with
  | none =>
      rw [he] at h
      simp only [getField, fetch, he, Option.map_eq_none_iff.1 h.symm]
  | some e =>
      rw [he] at h
      obtain ⟨e', he', hvalue⟩ := Option.map_eq_some_iff.1 h.symm
      simp only [getField, fetch, he, he', bind, Except.bind, hvalue]

theorem getField_of_find? {s : EntityStore} {k : StateKey} {e : Entity} {value : Json}
    (he : s.find? k.kind k.id = some e) (hvalue : e.get? k.field = some value) :
    s.getField k = .ok value := by
  simp only [getField, fetch, he, bind, Except.bind, hvalue]
  rfl

theorem getField_eq_ok {s : EntityStore} {k : StateKey} {value : Json} (h : s.getField k = .ok value) :
    ∃ e, s.find? k.kind k.id = some e ∧ e.get? k.field = some value := by
  cases he : s.find? k.kind k.id with
  | none =>
      simp only [getField, fetch, he] at h
      cases h
  | some e =>
      cases hvalue : e.get? k.field with
      | none =>
          simp only [getField, fetch, he, bind, Except.bind, hvalue] at h
          cases h
      | some value' =>
          rw [getField_of_find? he hvalue] at h
          cases h
          exact ⟨e, rfl, hvalue⟩

theorem getField_setField_self {s s' : EntityStore} {key : StateKey} {value : Json}
    (h : s.setField key value = .ok s') : s'.getField key = .ok value := by
  obtain ⟨e, he⟩ := find?_of_setField h
  apply getField_of_find? (find?_setField_self h he)
  simp [Entity.get?, Entity.set, Table.get?_insert_self]

/-- The write of one field leaves every other field as it is. -/
theorem getField_setField_of_ne {s s' : EntityStore} {key other : StateKey} {value : Json}
    (h : s.setField key value = .ok s') (hne : key ≠ other) : s'.getField other = s.getField other := by
  apply getField_congr
  rw [find?_setField h, Option.map_map]
  cases hfound : s.find? other.kind other.id with
  | none => rfl
  | some e =>
      obtain ⟨hkind, hid⟩ := isAt_of_find? hfound
      simp only [Option.map_some, Function.comp_apply]
      split
      · rename_i hat
        have hfield : other.field ≠ key.field := by
          intro heq
          apply hne
          cases key
          cases other
          simp_all [isAt]
        simp [Entity.get?, Entity.set, Table.get?_insert_of_ne _ _ hfield]
      · rfl

end EntityStore

end Workflow
