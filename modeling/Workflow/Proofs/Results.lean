import Mathlib.Data.List.Forall2

/-!
# Results that may be errors
-/

namespace Workflow

section

variable {ε α β : Type} {x : Except ε α} {f : α → Except ε β} {b : β} {e : ε}

theorem bind_eq_ok : (x >>= f) = .ok b ↔ ∃ a, x = .ok a ∧ f a = .ok b := by
  cases x <;> simp [bind, Except.bind]

theorem mapError_eq_ok {ε' : Type} {g : ε → ε'} {a : α} : x.mapError g = .ok a ↔ x = .ok a := by
  cases x <;> simp [Except.mapError]

theorem mapM_eq_ok {as : List α} {bs : List β} :
    as.mapM f = .ok bs ↔ List.Forall₂ (fun a b => f a = .ok b) as bs := by
  induction as generalizing bs with
  | nil =>
      simp only [List.mapM_nil, List.forall₂_nil_left_iff]
      exact ⟨fun h => by cases h; rfl, fun h => h ▸ rfl⟩
  | cons a as ih =>
      simp only [List.mapM_cons, bind_eq_ok, List.forall₂_cons_left_iff, ih]
      constructor
      · rintro ⟨b, hb, bs', hbs, h⟩
        cases h
        exact ⟨b, bs', hb, hbs, rfl⟩
      · rintro ⟨b, bs', hb, hbs, rfl⟩
        exact ⟨b, hb, bs', hbs, rfl⟩

end

/-- The error of the result is the first of the flaws, and there is no error only where there is no flaw. -/
def Reports {ε α : Type} (x : Except ε α) (flaws : List ε) : Prop :=
  match x with
  | .ok _ => flaws = []
  | .error e => flaws.head? = some e

namespace Reports

variable {ε α β : Type} {x : Except ε α} {f : α → Except ε β} {flaws flaws' : List ε}

theorem pure (a : α) : Reports (.ok a : Except ε α) [] := rfl

theorem bind (h : Reports x flaws) (hf : ∀ {a}, x = .ok a → Reports (f a) flaws') :
    Reports (x >>= f) (flaws ++ flaws') := by
  cases x with
  | error e => exact (List.head?_append ..).trans (by rw [show flaws.head? = some e from h]; rfl)
  | ok a =>
      rw [show flaws = [] from h]
      exact hf rfl

theorem mapError {ε' : Type} (h : Reports x flaws) (g : ε → ε') : Reports (x.mapError g) (flaws.map g) := by
  cases x with
  | error e => simp [Reports, Except.mapError, show flaws.head? = some e from h]
  | ok a => simp [Reports, Except.mapError, show flaws = [] from h]

theorem mapM {found : α → List ε} {as : List α} (h : ∀ a ∈ as, Reports (f a) (found a)) :
    Reports (as.mapM f) (as.flatMap found) := by
  induction as with
  | nil => exact pure []
  | cons a as ih =>
      rw [List.mapM_cons, List.flatMap_cons]
      refine (h a (List.mem_cons_self ..)).bind fun _ => ?_
      rw [← List.append_nil (as.flatMap found)]
      exact (ih fun b hb => h b (List.mem_cons_of_mem _ hb)).bind fun _ => pure _

theorem eq_error_iff (h : Reports x flaws) {e : ε} : x = .error e ↔ flaws.head? = some e := by
  cases x with
  | error e' => simp [show flaws.head? = some e' from h]
  | ok a => simp [show flaws = [] from h]

theorem exists_ok_iff (h : Reports x flaws) : (∃ a, x = .ok a) ↔ flaws = [] := by
  cases x with
  | error e =>
      have hne : flaws ≠ [] := by
        rintro rfl
        cases h
      simp [hne]
  | ok a => simp [show flaws = [] from h]

end Reports

end Workflow
