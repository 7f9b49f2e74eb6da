import Workflow.Engine.Pending

/-!
# Triples

A triple says of a computation from which states it starts and in which it ends: with a value, with an
error, or cut off in a world. The state is the world, or the world and the view that looks at it. Triples
of parts are put together to triples of whole runs, so that a statement about all runs comes from
statements about single changes of the world.
-/

namespace Workflow

/-! ## Outcomes -/

namespace EngineM

variable {α β : Type}

@[simp] theorem outcome_pure (a : α) (w : World) : (pure a : EngineM α).outcome w = (some a, w) :=
  rfl

@[simp] theorem outcome_get (w : World) : (get : EngineM World).outcome w = (some w, w) :=
  rfl

theorem outcome_bind (m : EngineM α) (f : α → EngineM β) (w : World) :
    (m >>= f).outcome w =
      match m.outcome w with
      | (some a, w') => (f a).outcome w'
      | (none, w') => (none, w') := by
  change (fun p : Option α × World =>
    (match p.1 with | some a => (f a).outcome | none => fun w' => (none, w')) p.2) (m.outcome w) = _
  obtain ⟨_ | a, w'⟩ := m.outcome w <;> rfl

theorem outcome_bind_some {m : EngineM α} {f : α → EngineM β} {a : α} {w w' : World}
    (h : m.outcome w = (some a, w')) : (m >>= f).outcome w = (f a).outcome w' := by
  rw [outcome_bind, h]

theorem outcome_bind_none {m : EngineM α} {f : α → EngineM β} {w w' : World}
    (h : m.outcome w = (none, w')) : (m >>= f).outcome w = (none, w') := by
  rw [outcome_bind, h]

theorem outcome_of_fst {m : EngineM (α × β)} {w : World} {a : α}
    (h : (m.outcome w).1.map Prod.fst = some a) : ∃ b w', m.outcome w = (some (a, b), w') := by
  cases ho : m.outcome w with
  | mk o w' =>
      rw [ho] at h
      obtain ⟨⟨_, b⟩, rfl, rfl⟩ := Option.map_eq_some_iff.1 h
      exact ⟨b, w', rfl⟩

end EngineM

/-! ## Monads with triples -/

/-- Where a computation may end without a value: with an error, or cut off. -/
structure Exits (S : Type) where
  error : EngineError → S → Prop
  cut : World → Prop

namespace Exits

variable {S : Type}

def ends {α : Type} (X : Exits S) (Q : α → S → Prop) : Except EngineError α → S → Prop
  | .ok a => Q a
  | .error e => X.error e

def only (cut : World → Prop) : Exits S :=
  ⟨fun _ _ => False, cut⟩

def any : Exits S :=
  ⟨fun _ _ => True, fun _ => True⟩

def both (X X' : Exits S) : Exits S :=
  ⟨fun e s => X.error e s ∧ X'.error e s, fun w => X.cut w ∧ X'.cut w⟩

end Exits

/-- Monads that act on the world, perhaps through a view of it. -/
class Worldly (m : Type → Type) [Monad m] (S : outParam Type) where
  /-- From the states in `P`, the computation ends in `Q` or by an exit. -/
  meets {α : Type} (P : S → Prop) (x : m α) (Q : α → S → Prop) (X : Exits S) : Prop
  pure {α : Type} {P : S → Prop} {a : α} {Q : α → S → Prop} {X : Exits S} :
    (∀ s, P s → Q a s) → meets P (pure a) Q X
  bind {α β : Type} {P : S → Prop} {M : α → S → Prop} {Q : β → S → Prop} {X : Exits S} {x : m α}
    {f : α → m β} : meets P x M X → (∀ a, meets (M a) (f a) Q X) → meets P (x >>= f) Q X
  mono {α : Type} {P P' : S → Prop} {Q Q' : α → S → Prop} {X X' : Exits S} {x : m α} :
    meets P x Q X → (∀ s, P' s → P s) → (∀ a s, Q a s → Q' a s) →
      (∀ e s, X.error e s → X'.error e s) → (∀ w, X.cut w → X'.cut w) → meets P' x Q' X'
  point {α : Type} {P : S → Prop} {Q : α → S → Prop} {X : Exits S} {x : m α} :
    (∀ s, P s → meets (fun s' => s' = s) x Q X) → meets P x Q X
  both {α : Type} {P P' : S → Prop} {Q Q' : α → S → Prop} {X X' : Exits S} {x : m α} :
    meets P x Q X → meets P' x Q' X' →
      meets (fun s => P s ∧ P' s) x (fun a s => Q a s ∧ Q' a s) (X.both X')

instance : Worldly EngineM World where
  meets P x Q X := ∀ w, P w →
    (∀ a w', EngineM.outcome x w = (some a, w') → Q a w') ∧
      ∀ w', EngineM.outcome x w = (none, w') → X.cut w'
  pure h w hw := ⟨fun _ _ ha => by cases ha; exact h w hw, nofun⟩
  bind {_ _ _ _ _ _ x f} hx hf w hw := by
    obtain ⟨hQ, hC⟩ := hx w hw
    cases ho : EngineM.outcome x w with
    | mk o w₁ =>
        cases o with
        | none =>
            rw [EngineM.outcome_bind_none ho]
            exact ⟨nofun, fun w' h => by cases h; exact hC w₁ ho⟩
        | some a =>
            rw [EngineM.outcome_bind_some ho]
            exact hf a w₁ (hQ a w₁ ho)
  mono hx hP hQ _ hC w hw :=
    ⟨fun a w' h => hQ a w' ((hx w (hP w hw)).1 a w' h), fun w' h => hC w' ((hx w (hP w hw)).2 w' h)⟩
  point h w hw := h w hw w rfl
  both hx hx' w hw :=
    ⟨fun a w' h => ⟨(hx w hw.1).1 a w' h, (hx' w hw.2).1 a w' h⟩,
      fun w' h => ⟨(hx w hw.1).2 w' h, (hx' w hw.2).2 w' h⟩⟩

instance : Worldly FieldM (View × World) where
  meets P x Q X := ∀ v, Worldly.meets (m := EngineM) (fun w => P (v, w)) (x.run v)
    (fun p w => Q p.1 (p.2, w)) (.only X.cut)
  pure h v := Worldly.pure (m := EngineM) fun w hw => h (v, w) hw
  bind hx hf v := Worldly.bind (m := EngineM) (hx v) fun p => hf p.1 p.2
  mono hx hP hQ _ hC v :=
    Worldly.mono (m := EngineM) (hx v) (fun w => hP (v, w)) (fun p w => hQ p.1 (p.2, w))
      (fun _ _ h => h) hC
  point h v := Worldly.point (m := EngineM) fun w hw =>
    Worldly.mono (m := EngineM) (h (v, w) hw v) (fun _ h => by rw [h]) (fun _ _ h => h)
      (fun _ _ h => h) fun _ h => h
  both hx hx' v := Worldly.mono (m := EngineM) (Worldly.both (m := EngineM) (hx v) (hx' v))
    (fun _ h => h) (fun _ _ h => h) (fun _ _ h => h.1) fun _ h => h

/-- Triples of commands do not speak of the context. -/
instance : Worldly CommandM (View × World) where
  meets P x Q X := ∀ c, Worldly.meets (m := FieldM) P (x.run c) (fun p => Q p.1) X
  pure h _ := Worldly.pure (m := FieldM) h
  bind hx hf c := Worldly.bind (m := FieldM) (hx c) fun p => hf p.1 p.2
  mono hx hP hQ hE hC c := Worldly.mono (m := FieldM) (hx c) hP (fun p => hQ p.1) hE hC
  point h c := Worldly.point (m := FieldM) fun s hs => h s hs c
  both hx hx' c := Worldly.both (m := FieldM) (hx c) (hx' c)

instance {m : Type → Type} [Monad m] {S : Type} [Worldly m S] : Worldly (ExceptT EngineError m) S where
  meets P x Q X := Worldly.meets (m := m) P x.run (X.ends Q) (.only X.cut)
  pure h := Worldly.pure (m := m) h
  bind hx hf := Worldly.bind (m := m) hx fun r =>
    match r with
    | .ok a => hf a
    | .error _ => Worldly.pure (m := m) fun _ h => h
  mono hx hP hQ hE hC := Worldly.mono (m := m) hx hP
    (fun r s h => match r with
      | .ok a => hQ a s h
      | .error e => hE e s h)
    (fun _ _ h => h) hC
  point h := Worldly.point (m := m) h
  both hx hx' := Worldly.mono (m := m) (Worldly.both (m := m) hx hx') (fun _ h => h)
    (fun r _ h => match r with
      | .ok _ => h
      | .error _ => h)
    (fun _ _ h => h.1) fun _ h => h

/-- From the states in `P`, the computation ends in `Q` or by an exit in `X`. -/
abbrev Meets {m : Type → Type} [Monad m] {S : Type} [Worldly m S] {α : Type} (P : S → Prop) (x : m α)
    (Q : α → S → Prop) (X : Exits S) : Prop :=
  Worldly.meets P x Q X

namespace Meets

variable {m : Type → Type} [Monad m] {S : Type} [Worldly m S] {α β : Type} {P P' : S → Prop}
  {Q Q' : α → S → Prop} {X X' : Exits S}

theorem pure {a : α} (h : ∀ s, P s → Q a s) : Meets P (pure a : m α) Q X :=
  Worldly.pure h

theorem bind {M : α → S → Prop} {Q : β → S → Prop} {x : m α} {f : α → m β} (hx : Meets P x M X)
    (hf : ∀ a, Meets (M a) (f a) Q X) : Meets P (x >>= f) Q X :=
  Worldly.bind hx hf

theorem mono {x : m α} (hx : Meets P x Q X) (hP : ∀ s, P' s → P s) (hQ : ∀ a s, Q a s → Q' a s)
    (hE : ∀ e s, X.error e s → X'.error e s) (hC : ∀ w, X.cut w → X'.cut w) : Meets P' x Q' X' :=
  Worldly.mono hx hP hQ hE hC

theorem point {x : m α} (h : ∀ s, P s → Meets (fun s' => s' = s) x Q X) : Meets P x Q X :=
  Worldly.point h

theorem pre {x : m α} (hx : Meets P x Q X) (h : ∀ s, P' s → P s) : Meets P' x Q X :=
  hx.mono h (fun _ _ h => h) (fun _ _ h => h) fun _ h => h

theorem post {x : m α} (hx : Meets P x Q X) (h : ∀ a s, Q a s → Q' a s) : Meets P x Q' X :=
  hx.mono (fun _ h => h) h (fun _ _ h => h) fun _ h => h

/-- What does not depend on the state may be assumed. -/
theorem assume {φ : Prop} {x : m α} (h : φ → Meets P x Q X) : Meets (fun s => φ ∧ P s) x Q X :=
  .point fun _ hs => (h hs.1).pre fun _ heq => heq ▸ hs.2

theorem absurd {x : m α} : Meets (fun _ => False) x Q X :=
  .point fun _ h => h.elim

theorem pick {ι : Type} {P : ι → S → Prop} {x : m α} (h : ∀ i, Meets (P i) x Q X) :
    Meets (fun s => ∃ i, P i s) x Q X :=
  .point fun _ ⟨i, hs⟩ => (h i).pre fun _ heq => heq ▸ hs

theorem both {x : m α} (hx : Meets P x Q X) (hx' : Meets P' x Q' X') :
    Meets (fun s => P s ∧ P' s) x (fun a s => Q a s ∧ Q' a s) (X.both X') :=
  Worldly.both hx hx'

/-- A first part with a known outcome. -/
theorem bindKnown {Q : β → S → Prop} {x : m α} {f : α → m β} {a : α} {t : S}
    (hx : Meets P x (fun a' s => a' = a ∧ s = t) X) (hf : Meets (fun s => s = t) (f a) Q X) :
    Meets P (x >>= f) Q X :=
  .bind hx fun _ => .assume fun h => h ▸ hf

theorem map [LawfulMonad m] {Q' : β → S → Prop} {x : m α} {f : α → β} (hx : Meets P x Q X)
    (hf : ∀ a s, Q a s → Q' (f a) s) : Meets P (f <$> x) Q' X := by
  rw [map_eq_pure_bind]
  exact .bind hx fun a => .pure (hf a)

/-! ## Errors -/

theorem ofExcept {x : m (Except EngineError α)} (hx : Meets P x (X.ends Q) (.only X.cut)) :
    Meets P (ExceptT.mk x) Q X :=
  hx

theorem run {x : ExceptT EngineError m α} {C : World → Prop} (hx : Meets P x Q X)
    (hC : ∀ w, X.cut w → C w) : Meets P x.run (X.ends Q) (.only C) :=
  Worldly.mono (m := m) hx (fun _ h => h) (fun _ _ h => h) (fun _ _ h => h) hC

theorem throw {e : EngineError} (h : ∀ s, P s → X.error e s) :
    Meets P (throw e : ExceptT EngineError m α) Q X :=
  Worldly.pure (m := m) h

theorem tryCatch {x : ExceptT EngineError m α} {handle : EngineError → ExceptT EngineError m α}
    {E : EngineError → S → Prop} (hx : Meets P x Q ⟨E, X.cut⟩)
    (hE : ∀ e, Meets (E e) (handle e) Q X) : Meets P (tryCatch x handle) Q X :=
  Worldly.bind (m := m) hx fun r =>
    match r with
    | .ok _ => Worldly.pure (m := m) fun _ h => h
    | .error e => hE e

theorem liftExcept [LawfulMonad m] {x : m α} (hx : Meets P x Q (.only X.cut)) :
    Meets P (liftM x : ExceptT EngineError m α) Q X :=
  Meets.map (m := m) hx fun _ _ h => h

/-! ## Views -/

variable {P P' : View × World → Prop} {Q : α → View × World → Prop} {X : Exits (View × World)}

theorem liftField {x : EngineM α}
    (hx : ∀ v, Meets (fun w => P (v, w)) x (fun a w => Q a (v, w)) (.only X.cut)) :
    Meets P (liftM x : FieldM α) Q X := fun v =>
  Worldly.bind (m := EngineM) (β := α × View) (f := fun a => Pure.pure (a, v)) (hx v) fun _ =>
    Worldly.pure (m := EngineM) fun _ h => h

theorem liftCommand {x : FieldM α} (hx : Meets P x Q X) : Meets P (liftM x : CommandM α) Q X :=
  fun c =>
  Worldly.bind (m := FieldM) (β := α × Context) (f := fun a => Pure.pure (a, c)) hx fun _ =>
    Worldly.pure (m := FieldM) fun _ h => h

theorem anyhow (x : FieldM α) : Meets (fun _ => True) x (fun _ _ => True) .any :=
  fun _ _ _ => ⟨fun _ _ _ => trivial, fun _ _ => trivial⟩

end Meets

end Workflow
