import Workflow.Proofs.Engine.Reading

/-!
# Outcomes

What a computation with a view comes to from one view of one world. It gives a value or an error, and leaves a
view and a world, or it is cut off.
-/

namespace Workflow

namespace ViewM

variable {α β : Type}

/-- What a computation gives, and the view and the world that it leaves. -/
def outcome (x : ViewM α) (v : View) (w : World) : Option (Except EngineError α × View) × World :=
  EngineM.outcome (x.run.run v) w

theorem outcome_bind (x : ViewM α) (f : α → ViewM β) (v : View) (w : World) :
    (x >>= f).outcome v w = match x.outcome v w with
      | (some (.ok a, v'), w') => (f a).outcome v' w'
      | (some (.error e, v'), w') => (some (.error e, v'), w')
      | (none, w') => (none, w') := by
  refine (EngineM.outcome_bind (x.run.run v) (fun p => (ExceptT.bindCont (m := FieldM) f p.1).run p.2) w).trans ?_
  unfold outcome
  obtain ⟨_ | ⟨_ | a, v'⟩, w'⟩ := EngineM.outcome (x.run.run v) w <;> rfl

theorem outcome_bind_ok {x : ViewM α} {a : α} {v v' : View} {w w' : World} (h : x.outcome v w = (some (.ok a, v'), w'))
    (f : α → ViewM β) : (x >>= f).outcome v w = (f a).outcome v' w' := by
  rw [outcome_bind, h]

theorem outcome_map (f : α → β) (x : ViewM α) (v : View) (w : World) :
    (f <$> x).outcome v w = match x.outcome v w with
      | (some (.ok a, v'), w') => (some (.ok (f a), v'), w')
      | (some (.error e, v'), w') => (some (.error e, v'), w')
      | (none, w') => (none, w') := by
  rw [map_eq_pure_bind, outcome_bind]
  rfl

theorem outcome_tryCatch (x : ViewM α) (handle : EngineError → ViewM α) (v : View) (w : World) :
    (tryCatch x handle).outcome v w = match x.outcome v w with
      | (some (.ok a, v'), w') => (some (.ok a, v'), w')
      | (some (.error e, v'), w') => (handle e).outcome v' w'
      | (none, w') => (none, w') := by
  refine (EngineM.outcome_bind (x.run.run v) _ w).trans ?_
  unfold outcome
  obtain ⟨_ | ⟨_ | a, v'⟩, w'⟩ := EngineM.outcome (x.run.run v) w <;> rfl

@[simp] theorem outcome_pure (a : α) (v : View) (w : World) :
    (pure a : ViewM α).outcome v w = (some (.ok a, v), w) := rfl

@[simp] theorem outcome_getView (v : View) (w : World) :
    (getThe View : ViewM View).outcome v w = (some (.ok v, v), w) := rfl

@[simp] theorem outcome_modifyView (f : View → View) (v : View) (w : World) :
    (modifyThe View f : ViewM Unit).outcome v w = (some (.ok (), f v), w) := rfl

@[simp] theorem outcome_key (v : View) (w : World) : key.outcome v w = (some (.ok v.key, v), w) := rfl

theorem outcome_ofCall {call : CallM α} {r : Except EngineError α} {w w' : World}
    (h : EngineM.outcome call.run w = (some r, w')) (v : View) :
    (ofCall call).outcome v w = (some (r, v), w') :=
  EngineM.outcome_bind_some (m := call.run) (f := fun r => pure (r, v)) h

theorem outcome_ofEngine {x : EngineM α} {a : α} {w w' : World} (h : x.outcome w = (some a, w')) (v : View) :
    (ofEngine x).outcome v w = (some (.ok a, v), w') := by
  have hcall : EngineM.outcome (liftM x : CallM α).run w = (some (.ok a), w') := by
    rw [show (liftM x : CallM α).run = x >>= fun a => pure (.ok a) from rfl, EngineM.outcome_bind_some h]
    rfl
  exact outcome_ofCall hcall v

/-- A computation comes to its outcome. -/
theorem outcome_meets (x : ViewM α) (s : View × World) :
    Meets (fun s' => s' = s) x (fun a s' => x.outcome s.1 s.2 = (some (.ok a, s'.1), s'.2))
      ⟨fun e s' => x.outcome s.1 s.2 = (some (.error e, s'.1), s'.2), fun w => x.outcome s.1 s.2 = (none, w)⟩ := by
  rintro v w rfl
  refine ⟨fun p w' h => ?_, fun w' h => h⟩
  obtain ⟨_ | a, v'⟩ := p <;> exact h

end ViewM

end Workflow
