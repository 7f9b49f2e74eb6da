import Workflow.Proofs.Engine.Starting
import Workflow.Proofs.Engine.Working

/-!
# Deferring to the queue

What it means that a computation defers to the queue what another does inline. Where the two come to the same,
this follows from their being alike; the worlds looked at are calm, so that no store call fails.
-/

namespace Workflow

/-! ## Calm worlds -/

/-- No fault is planned, and the entity of the field is there. -/
structure World.Sound (k : StateKey) (w : World) : Prop where
  faults : w.faults = []
  entity : (w.entities.find? k.kind k.id).isSome

/-- Besides, jobs are run inline, and none waits. -/
structure World.Calm (k : StateKey) (w : World) : Prop extends w.Sound k where
  inline : w.executor = .inline
  queue : w.queue = []

/-- A view of the field on a calm world. -/
structure CalmAt (k : StateKey) (s : View × World) : Prop where
  onKey : s.1.key = k
  calm : s.2.Calm k

namespace World

variable {k : StateKey} {w : World}

theorem Sound.struck (h : w.Sound k) (call : StoreCall) : (w.struck call).Sound k :=
  ⟨by rw [World.struck, h.faults]; rfl, h.entity⟩

theorem Calm.struck (h : w.Calm k) (call : StoreCall) : (w.struck call).Calm k :=
  ⟨h.toSound.struck call, h.inline, h.queue⟩

theorem Calm.next {w' : World} (h : w.Calm k) (hentities : w'.entities = w.entities := by rfl)
    (hfaults : w'.faults = w.faults := by rfl) (hexecutor : w'.executor = w.executor := by rfl)
    (hqueue : w'.queue = w.queue := by rfl) : w'.Calm k :=
  ⟨⟨hfaults.trans h.faults, hentities ▸ h.entity⟩, hexecutor.trans h.inline, hqueue.trans h.queue⟩

end World

namespace CalmAt

variable {k : StateKey}

theorem next {v : View} {w w' : World} (h : CalmAt k (v, w)) (hentities : w'.entities = w.entities := by rfl)
    (hfaults : w'.faults = w.faults := by rfl) (hexecutor : w'.executor = w.executor := by rfl)
    (hqueue : w'.queue = w.queue := by rfl) : CalmAt k (v, w') :=
  ⟨h.onKey, h.calm.next hentities hfaults hexecutor hqueue⟩

theorem working : Working (CalmAt k) where
  struck call h := ⟨h.onKey, h.calm.struck call⟩
  remarked _ h := h.next
  reread _ h := ⟨h.onKey, h.calm⟩
  wrote hset h := by
    refine ⟨h.onKey, ⟨h.calm.faults, ?_⟩, h.calm.inline, h.calm.queue⟩
    exact (EntityStore.isSome_find?_setField hset _ _).trans h.calm.entity
  emitted _ h := h.next
  locked _ _ h := h.next
  unlocked _ h := h.next
  landed _ h := h.next

theorem healthy {s : View × World} (h : CalmAt k s) : Healthy s :=
  ⟨h.calm.faults, by rw [h.onKey]; exact h.calm.entity⟩

theorem takes {X : Exits (View × World)} : X.Takes (CalmAt k) :=
  fun _ _ _ _ _ h hsick => absurd h.healthy hsick

theorem recordStart_meets {X : Exits (View × World)} (t : Transition) (context : Context) :
    Meets (CalmAt k) (t.recordStart context) (fun _ => CalmAt k) X := by
  refine .point fun s hs => .bindKnown (ViewM.getView_meets s) (.bindKnown (ViewM.getWorld_meets s) ?_)
  refine .bind (M := fun _ => CalmAt k) ?_ fun number => ?_
  · refine ViewM.ofEngine_meets fun v => .point fun w h => ?_
    cases h
    exact (EngineM.takeOff_meets v.key w).post fun _ _ h => h.2 ▸ hs.next
  · refine .bind (M := fun _ => CalmAt k) ?_ fun _ => .pure fun _ h => h
    exact ViewM.ofEngine_meets fun v => EngineM.modify_meets fun w h => h.next

end CalmAt

/-! ## Running the queue -/

namespace EngineM

/--
Runs the jobs of the queue until none is left, at most as many as the bound less one. Each is run as the
choice for the bound at its turn says: as the pool does, or by somebody who takes no notice of its outcome.
-/
def drainQueue (engine : Engine) (start : Start) (detached : Nat → Bool) : Nat → EngineM Unit
  | 0 => tooDeep
  | bound + 1 => do
    match ← takeQueued with
    | none => return
    | some job =>
      if detached bound then
        job.runDetached engine start
      else
        let _ ← job.run engine start
      drainQueue engine start detached bound

variable {engine : Engine} {start : Start} {detached : Nat → Bool} {bound : Nat} {w w' : World}

theorem drainQueue_nil (h : w.queue = []) :
    (drainQueue engine start detached (bound + 1)).outcome w = (some (), w) := by
  have htake : takeQueued.outcome w = (some none, w) := by
    unfold takeQueued
    rw [outcome_bind_some (outcome_get w), h]
    rfl
  unfold drainQueue
  rw [outcome_bind_some htake]
  rfl

/-- A job that ends well, whichever way it is run. -/
theorem drainQueue_cons {job : Job} {rest : List Job} (h : w.queue = job :: rest)
    (hjob : (job.run engine start).outcome { w with queue := rest } = (some (.ok ()), w')) :
    (drainQueue engine start detached (bound + 1)).outcome w =
      (drainQueue engine start detached bound).outcome w' := by
  have htake : takeQueued.outcome w = (some (some job), { w with queue := rest }) := by
    unfold takeQueued
    rw [outcome_bind_some (outcome_get w), h]
    rfl
  have hdetached : (job.runDetached engine start).outcome { w with queue := rest } = (some (), w') := by
    unfold Job.runDetached
    rw [outcome_bind_some hjob]
    rfl
  conv => lhs; unfold drainQueue
  rw [outcome_bind_some htake]
  dsimp only
  split
  · rw [outcome_bind_some hdetached]
  · rw [outcome_bind_some hjob]

end EngineM

/-! ## Deferring -/

/-- Whatever `x` comes to from a world in `P`, `y` comes to something in `R` to it under the queue. -/
def Defers {α : Type} (P : World → Prop) (x y : EngineM α) (R : α → World → α → World → Prop) : Prop :=
  ∀ w, P w → ∀ a w', x.outcome w = (some a, w') →
    ∃ b w₁, y.outcome (w.under .queue) = (some b, w₁) ∧ R a w' b w₁

theorem ViewM.run_bind {α β : Type} (x : ViewM β) (f : β → ViewM α) (v : View) :
    (x >>= f).run.run v = x.run.run v >>= fun p =>
      match p.1 with
      | .ok a => (f a).run.run p.2
      | .error e => pure (.error e, p.2) := by
  refine congrArg (x.run.run v >>= ·) (funext fun ⟨r, v'⟩ => ?_)
  cases r <;> rfl

theorem ViewM.run_bindKey {α : Type} (f : StateKey → ViewM α) (v : View) :
    (ViewM.key >>= f).run.run v = (f v.key).run.run v :=
  rfl

theorem ViewM.run_bindCall {α β : Type} (x : CallM β) (f : β → ViewM α) (v : View) :
    (ViewM.ofCall x >>= f).run.run v = x.run >>= fun r =>
      match r with
      | .ok a => (f a).run.run v
      | .error e => pure (.error e, v) := by
  rw [ViewM.run_bind]
  change (x.run >>= fun r => pure (r, v)) >>= _ = _
  rw [bind_assoc]
  simp only [pure_bind]

theorem ViewM.run_bindEngine {α β : Type} (x : EngineM β) (f : β → ViewM α) (v : View) :
    (ViewM.ofEngine x >>= f).run.run v = x >>= fun a => (f a).run.run v := by
  rw [ViewM.ofEngine, ViewM.run_bindCall]
  change (Except.ok <$> x) >>= _ = _
  rw [map_eq_pure_bind, bind_assoc]
  simp only [pure_bind]

namespace Defers

open EngineM

variable {engine : Engine} {α β : Type} {P : World → Prop} {M : β → World → Prop}
  {R : α → World → α → World → Prop} {S : β → World → β → World → Prop} {Q : β → Prop}

theorem pure {a : α} (h : ∀ w, P w → R a w a (w.under .queue)) : Defers P (pure a) (pure a) R := by
  intro w hw _ _ ho
  cases ho
  exact ⟨a, w.under .queue, rfl, h w hw⟩

theorem same {x y : EngineM β} (hxy : (Likeness.under engine .queue).Agree Q x y)
    (hx : Meets P x M (.only fun _ => True)) (hR : ∀ a w, M a w → S a w a (w.under .queue)) :
    Defers P x y S := by
  intro w hw a w' ho
  refine ⟨a, w'.under .queue, ?_, hR a w' ((hx w hw).1 a w' ho)⟩
  have hends := hxy w (w.under .queue) rfl
  rw [ho] at hends
  exact Prod.ext hends.value.symm hends.like

theorem andThen {x y : EngineM β} {f g : β → EngineM α} (hx : Defers P x y S)
    (hf : ∀ a w b w₁, S a w b w₁ → ∀ a' w', (f a).outcome w = (some a', w') →
      ∃ b' w₁', (g b).outcome w₁ = (some b', w₁') ∧ R a' w' b' w₁') : Defers P (x >>= f) (y >>= g) R := by
  intro w hw a' w' ho
  cases hfirst : x.outcome w with
  | mk o w₁ =>
      cases o with
      | none =>
          rw [outcome_bind_none hfirst] at ho
          cases ho
      | some a =>
          rw [outcome_bind_some hfirst] at ho
          obtain ⟨b, w₂, hy, hR⟩ := hx w hw a w₁ hfirst
          rw [outcome_bind_some hy]
          exact hf a w₁ b w₂ hR a' w' ho

theorem mono {P' : World → Prop} {R' : α → World → α → World → Prop} {x y : EngineM α}
    (hx : Defers P x y R) (hP : ∀ w, P' w → P w) (hR : ∀ a w b w₁, R a w b w₁ → R' a w b w₁) :
    Defers P' x y R' := by
  intro w hw a w' ho
  obtain ⟨b, w₁, hy, h⟩ := hx w (hP w hw) a w' ho
  exact ⟨b, w₁, hy, hR a w' b w₁ h⟩

theorem onFresh {S : Except EngineError α → World → Except EngineError α → World → Prop} {key : StateKey}
    {x y : ViewM α} (hx : Defers P (x.run.run (.fresh key)) (y.run.run (.fresh key))
      fun p w q w₁ => S p.1 w q.1 w₁) : Defers P (ViewM.onFresh key x) (ViewM.onFresh key y) S := by
  refine hx.andThen fun p w q w₁ h _ _ ho => ?_
  cases ho
  exact ⟨q.1, w₁, rfl, h⟩

theorem bind {x y : EngineM β} {f g : β → EngineM α} (hxy : (Likeness.under engine .queue).Agree Q x y)
    (hx : Meets P x M (.only fun _ => True)) (hf : ∀ a, Defers (M a) (f a) (g a) R) :
    Defers P (x >>= f) (y >>= g) R := by
  refine (same (S := fun a w b w₁ => M a w ∧ a = b ∧ w₁ = w.under .queue) hxy hx
    fun _ _ h => ⟨h, rfl, rfl⟩).andThen ?_
  rintro a w _ _ ⟨h, rfl, rfl⟩
  exact hf a w h

/-- The same for a computation with a view, which may end there with an error. -/
theorem bindView {P : View × World → Prop} {M : β → View × World → Prop}
    {E : EngineError → View × World → Prop} {x y : ViewM β} {f g : β → ViewM α} {v : View}
    {R : Except EngineError α × View → World → Except EngineError α × View → World → Prop}
    (hxy : Alike (.under engine .queue) x y) (hx : Meets P x M ⟨E, fun _ => True⟩)
    (hf : ∀ a v, Defers (fun w => M a (v, w)) ((f a).run.run v) ((g a).run.run v) R)
    (hE : ∀ e v w, E e (v, w) → R (.error e, v) w (.error e, v) (w.under .queue)) :
    Defers (fun w => P (v, w)) ((x >>= f).run.run v) ((y >>= g).run.run v) R := by
  rw [ViewM.run_bind, ViewM.run_bind]
  refine bind (hxy v trivial) (hx v) fun p => ?_
  obtain ⟨r, v'⟩ := p
  cases r with
  | ok a => exact hf a v'
  | error e => exact pure fun w h => hE e v' w h

theorem sameView {P : View × World → Prop} {M : β → View × World → Prop} {x y : ViewM β} {v : View}
    {R : Except EngineError β × View → World → Except EngineError β × View → World → Prop}
    (hxy : Alike (.under engine .queue) x y) (hx : Meets P x M (.only fun _ => True))
    (hR : ∀ a v w, M a (v, w) → R (.ok a, v) w (.ok a, v) (w.under .queue)) :
    Defers (fun w => P (v, w)) (x.run.run v) (y.run.run v) R := by
  refine same (hxy v trivial) (hx v) fun p w h => ?_
  obtain ⟨r, v'⟩ := p
  cases r with
  | ok a => exact hR a v' w h
  | error e => exact h.elim

end Defers

end Workflow
