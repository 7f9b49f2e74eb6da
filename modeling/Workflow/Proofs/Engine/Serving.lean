import Workflow.Engine.Run
import Workflow.Proofs.Engine.Outcomes

/-!
# Stores that serve

What calls through a view, and the steps of a transition, come to where the stores do not fail.
-/

namespace Workflow

/-! ## No faults -/

theorem Fault.strike_of_ne {call : StoreCall} {faults : List Fault} (h : ∀ f ∈ faults, f.call ≠ call) :
    strike call faults = (none, faults) := by
  induction faults with
  | nil => rfl
  | cons f faults ih =>
      obtain ⟨hf, hfaults⟩ := List.forall_mem_cons.1 h
      simp [strike, hf, ih hfaults]

/-- No call of the entity store is going to fail. -/
def World.Serves (w : World) : Prop :=
  ∀ f ∈ w.faults, f.call ∉ [.fetch, .getField, .setField]

namespace World

variable {w : World} (hw : w.faults = [])

include hw

theorem strikes_none {call : StoreCall} : ∀ f ∈ w.faults, f.call ≠ call := by
  rw [hw]
  exact List.forall_mem_nil _

theorem serves_of_nil : w.Serves := by
  rw [Serves, hw]
  exact List.forall_mem_nil _

end World

/-! ## Writes -/

namespace EntityStore

/-- The store with one field written, where the entity is there. -/
def assign (s : EntityStore) (key : StateKey) (value : Json) : EntityStore :=
  ⟨s.entities.map fun x => if isAt key.kind key.id x then x.set key.field value else x⟩

theorem setField_eq_assign {s : EntityStore} (key : StateKey) {e : Entity}
    (he : s.find? key.kind key.id = some e) (value : Json) : s.setField key value = .ok (s.assign key value) := by
  simp only [setField, fetch, he]
  rfl

variable {s : EntityStore} {key other : StateKey} {value : Json}

theorem assign_of_none (h : s.find? key.kind key.id = none) : s.assign key value = s := by
  have hother : ∀ x ∈ s.entities, (if isAt key.kind key.id x then x.set key.field value else x) = x := by
    intro x hx
    rw [if_neg (List.find?_eq_none.1 h x hx)]
  simp [assign, List.map_congr_left hother]

theorem isSome_find?_assign (kind id : String) :
    ((s.assign key value).find? kind id).isSome = (s.find? kind id).isSome := by
  cases he : s.find? key.kind key.id with
  | none => rw [assign_of_none he]
  | some e => exact isSome_find?_setField (setField_eq_assign _ he value) kind id

theorem getField_assign_of_ne (h : key ≠ other) : (s.assign key value).getField other = s.getField other := by
  cases he : s.find? key.kind key.id with
  | none => rw [assign_of_none he]
  | some e => exact getField_setField_of_ne (setField_eq_assign _ he value) h

theorem getField_assign_self (h : (s.find? key.kind key.id).isSome) :
    (s.assign key value).getField key = .ok value := by
  obtain ⟨e, he⟩ := Option.isSome_iff_exists.1 h
  exact getField_setField_self (setField_eq_assign _ he value)

end EntityStore

/-- A field of the same entity. -/
def StateKey.beside (key : StateKey) (field : String) : StateKey :=
  ⟨key.kind, key.id, field⟩

theorem EntityStore.find?_assign_beside {s : EntityStore} {key : StateKey} {e : Entity}
    (he : s.find? key.kind key.id = some e) (field : String) (value : Json) :
    (s.assign (key.beside field) value).find? key.kind key.id = some (e.set field value) :=
  find?_setField_self (setField_eq_assign (key.beside field) he value) he

/-! ## Calls -/

/-- The world after a call that did nothing but answer. -/
def World.answered {α : Type} (w : World) (call : StoreCall) : Except EngineError α → World
  | .ok _ => w
  | .error e => w.record (.failed call e)

namespace CallM

variable {w : World} {α : Type}

/-- A call that no fault hits uses up its turn in the plan. -/
theorem strike_passes {call : StoreCall} (h : (Fault.strike call w.faults).1 = none) :
    EngineM.outcome (liftM (strike call) : CallM (Option FaultEffect)).run w = (some (.ok none), w.struck call) := by
  change (some (Except.ok (Fault.strike call w.faults).1), w.struck call) = _
  rw [h]

theorem ofEntities_passes {call : StoreCall} {run : EntityStore → Except EngineError α}
    (h : (Fault.strike call w.faults).1 = none) : EngineM.outcome (ofEntities call run).run w =
      (some (run w.entities), (w.struck call).answered call (run w.entities)) := by
  rw [ofEntities, ExceptT.run_bind, EngineM.outcome_bind_some (strike_passes h)]
  change EngineM.outcome (match run w.entities with
    | .ok a => return a
    | .error e => fail call e : CallM α).run (w.struck call) = _
  cases run w.entities <;> rfl

theorem struck_of_ne {call : StoreCall} (h : ∀ f ∈ w.faults, f.call ≠ call) : w.struck call = w := by
  rw [World.struck, Fault.strike_of_ne h]

theorem strike_outcome {call : StoreCall} (h : ∀ f ∈ w.faults, f.call ≠ call) :
    EngineM.outcome (liftM (strike call) : CallM (Option FaultEffect)).run w = (some (.ok none), w) := by
  rw [strike_passes (by rw [Fault.strike_of_ne h]), struck_of_ne h]

theorem ofEntities_outcome {call : StoreCall} {run : EntityStore → Except EngineError α} (hw : w.Serves)
    (hcall : call ∈ [.fetch, .getField, .setField]) :
    EngineM.outcome (ofEntities call run).run w = (some (run w.entities), w.answered call (run w.entities)) := by
  have hother : ∀ f ∈ w.faults, f.call ≠ call := fun f hf heq => hw f hf (heq ▸ hcall)
  rw [ofEntities_passes (by rw [Fault.strike_of_ne hother]), struck_of_ne hother]

theorem setField_outcome (key : StateKey) {e : Entity} (hw : w.Serves)
    (he : w.entities.find? key.kind key.id = some e) (value : Json) :
    EngineM.outcome (setField key value).run w =
      (some (.ok ()), w.write (w.entities.assign key value) key value) := by
  have hset : EngineM.outcome (ofEntities .setField fun s => s.setField key value).run w =
      (some (.ok (w.entities.assign key value)), w) := by
    rw [ofEntities_outcome hw (by simp), EntityStore.setField_eq_assign _ he]
    rfl
  exact EngineM.outcome_bind_some hset

/-! The calls of the lock store, where no fault is planned. -/

variable (hw : w.faults = []) (lockKey : String)

include hw

theorem isHeld_outcome : EngineM.outcome (isHeld lockKey).run w = (some (.ok (w.locks.isHeld lockKey)), w) := by
  rw [isHeld, ExceptT.run_bind, EngineM.outcome_bind_some (strike_outcome (World.strikes_none hw))]
  rfl

theorem acquire_outcome (ttl : Nat) (hfree : w.locks.isHeld lockKey = false) :
    EngineM.outcome (acquire lockKey ttl).run w = (some (.ok true), w.lock lockKey ttl) := by
  have htaken : (w.locks.acquire lockKey ttl).1 = true := by rw [LockStore.acquire_fst, hfree, Bool.not_false]
  rw [acquire, ExceptT.run_bind, EngineM.outcome_bind_some (strike_outcome (World.strikes_none hw))]
  change EngineM.outcome (do
    if (w.locks.acquire lockKey ttl).1 then modify fun w => w.lock lockKey ttl
    return (w.locks.acquire lockKey ttl).1 : CallM Bool).run w = _
  rw [htaken]
  rfl

/-- A key that is held is not taken. -/
theorem acquire_outcome_held (ttl : Nat) (hheld : w.locks.isHeld lockKey = true) :
    EngineM.outcome (acquire lockKey ttl).run w = (some (.ok false), w) := by
  have hmissed : (w.locks.acquire lockKey ttl).1 = false := by rw [LockStore.acquire_fst, hheld, Bool.not_true]
  rw [acquire, ExceptT.run_bind, EngineM.outcome_bind_some (strike_outcome (World.strikes_none hw))]
  change EngineM.outcome (do
    if (w.locks.acquire lockKey ttl).1 then modify fun w => w.lock lockKey ttl
    return (w.locks.acquire lockKey ttl).1 : CallM Bool).run w = _
  rw [hmissed]
  rfl

theorem release_outcome : EngineM.outcome (release lockKey).run w = (some (.ok ()), w.unlock lockKey) := by
  rw [release, ExceptT.run_bind, EngineM.outcome_bind_some (strike_outcome (World.strikes_none hw))]
  rfl

end CallM

/-! ## Views -/

namespace ViewM

variable {v : View} {w : World} {e : Entity}

theorem refresh_outcome (hw : w.Serves) (he : w.entities.find? v.key.kind v.key.id = some e) :
    refresh.outcome v w = (some (.ok e, v.remember e), w) := by
  have hfetch : EngineM.outcome (CallM.fetch v.key.kind v.key.id).run w = (some (.ok e), w) := by
    rw [CallM.fetch, CallM.ofEntities_outcome hw (by simp), EntityStore.fetch, he]
    rfl
  simp only [refresh, outcome_bind, outcome_key, outcome_ofCall hfetch, outcome_modifyView, outcome_pure,
    View.remember]

theorem entity_outcome (hw : w.Serves) (he : w.entities.find? v.key.kind v.key.id = some e) :
    entity.outcome v w = (some (.ok (v.memo.getD e), v.remember (v.memo.getD e)), w) := by
  obtain ⟨key, memo⟩ := v
  cases memo with
  | none => simp only [entity, outcome_bind, outcome_getView, refresh_outcome hw he, Option.getD_none]
  | some m => simp only [entity, outcome_bind, outcome_getView, outcome_pure, Option.getD_some, View.remember]

theorem storedState_outcome (hw : w.Serves) :
    storedState.outcome v w = (some (w.entities.getField v.key >>= stateOf v.key.field, v),
      w.answered .getField (w.entities.getField v.key)) := by
  have hget : EngineM.outcome (CallM.getField v.key).run w = _ := CallM.ofEntities_outcome hw (by simp)
  simp only [storedState, outcome_bind, outcome_key, outcome_ofCall hget]
  cases w.entities.getField v.key <;> rfl

theorem memoizedState_outcome (hw : w.Serves) (he : w.entities.find? v.key.kind v.key.id = some e) :
    memoizedState.outcome v w =
      (some ((match (v.memo.getD e).get? v.key.field with
        | some value => stateOf v.key.field value
        | none => .error (.fieldNotFound v.key)), v.remember (v.memo.getD e)), w) := by
  simp only [memoizedState, outcome_bind, outcome_key, entity_outcome hw he]
  cases (v.memo.getD e).get? v.key.field <;> rfl

theorem setField_outcome (hw : w.Serves) (he : w.entities.find? v.key.kind v.key.id = some e) (field : String)
    (value : Json) : (setField field value).outcome v w =
      (some (.ok (), v.remember (e.set field value)),
        w.write (w.entities.assign (v.key.beside field) value) (v.key.beside field) value) := by
  let key := v.key.beside field
  have hset := CallM.setField_outcome key hw he value
  have hwritten : (w.entities.assign key value).find? v.key.kind v.key.id = some (e.set field value) :=
    EntityStore.find?_assign_beside he field value
  have hrefresh : refresh.outcome v (w.write (w.entities.assign key value) key value) = _ :=
    refresh_outcome hw hwritten
  have hkeyed : (setField field value).outcome v w =
      (ofCall (CallM.setField key value) >>= fun _ => refresh >>= fun _ => pure ()).outcome v w :=
    outcome_bind ViewM.key _ v w
  rw [hkeyed]
  simp only [outcome_bind, outcome_ofCall hset, hrefresh, outcome_pure]
  rfl

theorem setState_outcome (value : String) (v : View) (w : World) :
    (setState value).outcome v w = (setField v.key.field (.str value)).outcome v w :=
  outcome_bind key (fun k => setField k.field (.str value)) v w

variable (engine : Engine) (hfaults : w.faults = [])

include hfaults

theorem isLocked_outcome : (isLocked engine).outcome v w =
    (some (.ok (w.locks.isHeld (v.key.lockKey engine.config.lockPrefix)), v), w) := by
  simp only [isLocked, lockKey, outcome_bind, outcome_key, outcome_pure,
    outcome_ofCall (CallM.isHeld_outcome hfaults _)]

theorem lock_outcome (hfree : w.locks.isHeld (v.key.lockKey engine.config.lockPrefix) = false) :
    (lock engine).outcome v w =
      (some (.ok true, v), w.lock (v.key.lockKey engine.config.lockPrefix) engine.config.lockTtl) := by
  simp only [lock, lockKey, outcome_bind, outcome_key, outcome_pure,
    outcome_ofCall (CallM.acquire_outcome hfaults _ _ hfree)]

theorem lock_outcome_held (hheld : w.locks.isHeld (v.key.lockKey engine.config.lockPrefix) = true) :
    (lock engine).outcome v w = (some (.ok false, v), w) := by
  simp only [lock, lockKey, outcome_bind, outcome_key, outcome_pure,
    outcome_ofCall (CallM.acquire_outcome_held hfaults _ _ hheld)]

theorem unlock_outcome : (unlock engine).outcome v w =
    (some (.ok (), v), w.unlock (v.key.lockKey engine.config.lockPrefix)) := by
  simp only [unlock, lockKey, outcome_bind, outcome_key, outcome_pure, outcome_ofCall (CallM.release_outcome hfaults _)]

end ViewM

/-! ## Steps of a transition -/

/-- The world after a state is written and the change reported. -/
def World.change (w : World) (key : StateKey) (action : String) (source : Option String) (value : String)
    (phase : Phase) : World :=
  (w.write (w.entities.assign key (.str value)) key (.str value)).emit ⟨key, action, .stateChanged source value phase⟩

namespace Transition

variable {v : View} {w : World} {e : Entity} (t : Transition)

theorem report_outcome (kind : EventKind) (v : View) (w : World) :
    (t.report kind).outcome v w = (some (.ok (), v), w.emit ⟨v.key, t.action, kind⟩) := by
  simp only [report, ViewM.outcome_bind, ViewM.outcome_key]
  rfl

theorem recordStart_outcome (context : Context) (v : View) (w : World) :
    (t.recordStart context).outcome v w = (some (.ok w.starts, v), (w.takeOff v.key).record
      (.started ⟨w.starts, t, v.key, (w.entities.getField v.key).toOption, v.memo, context⟩)) :=
  rfl

/-- The change is told from the state that the view remembers, if that is a text. -/
theorem writeState_outcome (hw : w.Serves) (he : w.entities.find? v.key.kind v.key.id = some e) (value : String)
    (phase : Phase) : (t.writeState value phase).outcome v w =
      (some (.ok (), v.remember (e.set v.key.field (.str value))),
        w.change v.key t.action ((v.memo.getD e).getString? v.key.field) value phase) := by
  have hsource : (tryCatch (some <$> ViewM.memoizedState) fun _ => pure none : ViewM (Option String)).outcome v w =
      (some (.ok ((v.memo.getD e).getString? v.key.field), v.remember (v.memo.getD e)), w) := by
    rw [ViewM.outcome_tryCatch, ViewM.outcome_map, ViewM.memoizedState_outcome hw he, Entity.getString?,
      Table.getString?, ← Entity.get?]
    cases (v.memo.getD e).get? v.key.field with
    | none => rfl
    | some value => cases value <;> rfl
  have hset := ViewM.setField_outcome (v := v.remember (v.memo.getD e)) hw he v.key.field (.str value)
  simp only [writeState, ViewM.outcome_bind, hsource, ViewM.setState_outcome, View.remember] at hset ⊢
  simp only [hset, report_outcome]
  rfl

theorem enter_outcome_none (h : t.inProgress = none) (v : View) (w : World) :
    t.enter.outcome v w = (some (.ok none, v), w) := by
  rw [enter, h]
  rfl

theorem enter_outcome_some (hw : w.Serves) (he : w.entities.find? v.key.kind v.key.id = some e) {value state : String}
    (h : t.inProgress = some value) (hstate : (v.memo.getD e).get? v.key.field = some (.str state)) :
    t.enter.outcome v w = (some (.ok (some state), v.remember (e.set v.key.field (.str value))),
      w.change v.key t.action (some state) value .inProgress) := by
  have hmemo : ViewM.memoizedState.outcome v w = (some (.ok state, v.remember (v.memo.getD e)), w) := by
    rw [ViewM.memoizedState_outcome hw he, hstate]
    rfl
  have hwrite := t.writeState_outcome (v := v.remember (v.memo.getD e)) hw he value .inProgress
  have htold : (v.memo.getD e).getString? v.key.field = some state := by
    rw [Entity.getString?, Table.getString?, ← Entity.get?, hstate]
    rfl
  simp only [View.remember, Option.getD_some, htold] at hwrite hmemo
  simp only [enter, h, ViewM.outcome_bind, hmemo, hwrite, ViewM.outcome_pure, View.remember]

theorem release_outcome (engine : Engine) (hfaults : w.faults = []) (n : Nat) (v : View) :
    (t.release engine (some n)).outcome v w = (some (.ok (), v),
      ((w.land ⟨n, v.key⟩).unlock (v.key.lockKey engine.config.lockPrefix)).emit ⟨v.key, t.action, .unlocked⟩) := by
  have hland : (ViewM.ofEngine (EngineM.land ⟨n, v.key⟩)).outcome v w = (some (.ok (), v), w.land ⟨n, v.key⟩) := rfl
  have hunlock := ViewM.unlock_outcome (v := v) (w := w.land ⟨n, v.key⟩) engine hfaults
  simp only [release, ViewM.outcome_bind, ViewM.outcome_key, hland, hunlock, report_outcome]

end Transition

end Workflow
