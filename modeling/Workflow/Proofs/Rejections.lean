import Workflow.Proofs.Engine.Actions
import Workflow.Proofs.Engine.Serving
import Workflow.Proofs.Runs

/-!
# Rejected jobs

A transition whose job is refused gives its lock back, runs nothing and leaves its failed state in the field. If it
has none, it leaves the state that its view remembered when it wrote the in-progress one. This is the state that it
has found in the store unless the memory of the view is out of date.
-/

namespace Workflow

def Entry.isCommand : Entry → Bool
  | command .. => true
  | _ => false

/-- The next job is not taken, for the reason given. -/
def Executor.Refuses (reason : String) : Executor → Prop
  | rejecting r => r = reason
  | varying first _ => first.Refuses reason
  | _ => False

theorem Job.dispatch_refused (engine : Engine) (start : Start) {reason : String} (job : Job) {w : World}
    (h : w.executor.Refuses reason) : ∃ executor,
      EngineM.outcome (job.dispatch engine start) w = (some (.error (.rejected reason)), { w with executor }) := by
  -- The executor that is asked is not that of the world once a varying one has put its rest there.
  suffices hall : ∀ (x : Executor) (w : World), x.Refuses reason → ∃ executor,
      EngineM.outcome (job.handTo engine start x) w = (some (.error (.rejected reason)), { w with executor }) from
    hall w.executor w h
  intro x w hx
  induction x generalizing w with
  | rejecting r =>
      cases hx
      exact ⟨w.executor, rfl⟩
  | varying first rest ihfirst _ => exact ihfirst { w with executor := rest } hx
  | _ => exact hx.elim

/-! ## Up to the refusal -/

/-- Since an earlier world no command was run, no job was left to be run, and nothing but one field was written,
which holds this state now. -/
structure World.Attempted (earlier : World) (k : StateKey) (state : String) (w : World) : Prop where
  faults : w.faults = []
  pending : w.pending = earlier.pending
  silent : ∃ new, w.journal = new ++ earlier.journal ∧ ∀ m ∈ new, m.entry.isCommand = false
  field : w.entities.getField k = .ok (.str state)
  others : ∀ k', k' ≠ k → w.entities.getField k' = earlier.entities.getField k'

namespace World.Attempted

variable {w₀ w : World} {k : StateKey} {state : String}

theorem refl (hfaults : w.faults = []) (hfield : w.entities.getField k = .ok (.str state)) :
    w.Attempted k state w :=
  ⟨hfaults, rfl, ⟨[], rfl, List.forall_mem_nil _⟩, hfield, fun _ _ => rfl⟩

theorem congr {w' : World} (h : w₀.Attempted k state w) (hfaults : w'.faults = w.faults)
    (hpending : w'.pending = w.pending) (hjournal : w'.journal = w.journal) (hentities : w'.entities = w.entities) :
    w₀.Attempted k state w' where
  faults := hfaults.trans h.faults
  pending := hpending.trans h.pending
  silent := hjournal ▸ h.silent
  field := hentities ▸ h.field
  others := hentities ▸ h.others

/-- An entry that tells of no command. -/
theorem noted {w' : World} {m : Moment} (h : w₀.Attempted k state w) (hjournal : w'.journal = m :: w.journal)
    (hm : m.entry.isCommand = false) (hfaults : w'.faults = w.faults) (hpending : w'.pending = w.pending)
    (hentities : w'.entities = w.entities) : w₀.Attempted k state w' := by
  obtain ⟨new, hnew, hsilent⟩ := h.silent
  refine ⟨hfaults.trans h.faults, hpending.trans h.pending, ⟨m :: new, ?_, List.forall_mem_cons.2 ⟨hm, hsilent⟩⟩,
    hentities ▸ h.field, hentities ▸ h.others⟩
  rw [hjournal, hnew, List.cons_append]

theorem emit (h : w₀.Attempted k state w) (e : Event) : w₀.Attempted k state (w.emit e) :=
  h.noted rfl rfl rfl rfl rfl

theorem lock (h : w₀.Attempted k state w) (lockKey : String) (ttl : Nat) :
    w₀.Attempted k state (w.lock lockKey ttl) :=
  h.noted rfl rfl rfl rfl rfl

theorem unlock (h : w₀.Attempted k state w) (lockKey : String) : w₀.Attempted k state (w.unlock lockKey) :=
  h.noted rfl rfl rfl rfl rfl

theorem land (h : w₀.Attempted k state w) (flight : Flight) : w₀.Attempted k state (w.land flight) :=
  h.noted rfl rfl rfl rfl rfl

theorem start (h : w₀.Attempted k state w) (key : StateKey) (s : Started) :
    w₀.Attempted k state ((w.takeOff key).record (.started s)) :=
  h.noted rfl rfl rfl rfl rfl

theorem found (h : w₀.Attempted k state w) : ∃ e, w.entities.find? k.kind k.id = some e ∧
    e.get? k.field = some (.str state) :=
  EntityStore.getField_eq_ok h.field

theorem change (h : w₀.Attempted k state w) (action : String) (source : Option String) (value : String)
    (phase : Phase) : w₀.Attempted k value (w.change k action source value phase) := by
  obtain ⟨e, he, -⟩ := h.found
  refine emit ?_ _
  have hwritten : w₀.Attempted k value { w with entities := w.entities.assign k (.str value) } := by
    refine ⟨h.faults, h.pending, h.silent, ?_, fun k' hne => ?_⟩
    · exact EntityStore.getField_assign_self (by rw [he]; rfl)
    · exact (EntityStore.getField_assign_of_ne hne.symm).trans (h.others k' hne)
  exact hwritten.noted rfl rfl rfl rfl rfl

end World.Attempted

namespace Locker

def locking : Transition :=
  ⟨"lock", ["open"], .moves "locked" (some "locking") none, none, [], [], [], [], []⟩

def stamping : Transition :=
  ⟨"stamp", ["locked"], .moves "stamped" (some "stamping") none, none, [], [], [], [], []⟩

end Locker

/-- A view that remembers nothing fetches the entity, and so remembers the state of now. -/
theorem View.getD_remembers (v : View) {e : Entity} {state remembered : String}
    (hstate : e.get? v.key.field = some (.str state))
    (hmemo : v.memo.elim (some (.str state)) (·.get? v.key.field) = some (.str remembered)) :
    (v.memo.getD e).get? v.key.field = some (.str remembered) := by
  rw [← hmemo]
  cases v.memo with
  | none => exact hstate
  | some _ => rfl

/-- The world in which a transition has its lock. -/
def World.claimed (engine : Engine) (t : Transition) (v : View) (context : Context) (w : World) : World :=
  (((w.lock (v.key.lockKey engine.config.lockPrefix) engine.config.lockTtl).takeOff v.key).record
    (.started ⟨w.starts, t, v.key, (w.entities.getField v.key).toOption, v.memo, context⟩)).emit
      ⟨v.key, t.action, .locked⟩

namespace Transition

variable (engine : Engine) (start : Start) (t : Transition) {v : View} {w₀ w : World} {state reason : String}

/-- What a refused transition has left behind: a free lock, and this state in the field. -/
def Undone (w₀ : World) (k : StateKey) (state : String) (w : World) : Prop :=
  w₀.Attempted k state w ∧ w.locks.isHeld (k.lockKey engine.config.lockPrefix) = false

theorem conclude_undoes (h : w₀.Attempted v.key state w) (n : Nat) (kind : EventKind) :
    ∃ v' w', (do
        t.release engine (some n)
        t.report kind).outcome v w = (some (.ok (), v'), w') ∧ Undone engine w₀ v.key state w' := by
  rw [ViewM.outcome_bind_ok (t.release_outcome engine h.faults n v), report_outcome]
  exact ⟨v, _, rfl, (((h.land _).unlock _).emit _).emit _, LockStore.isHeld_release_self _ _⟩

theorem abort_undoes (h : w₀.Attempted v.key state w) (previous : Option String) (reason : String) (n : Nat) :
    ∃ v' w', (t.abort engine previous reason (some n)).outcome v w = (some (.ok (), v'), w') ∧
      Undone engine w₀ v.key ((t.failed <|> previous).getD state) w' := by
  cases hvalue : t.failed <|> previous with
  | none =>
      simp only [abort, hvalue]
      exact conclude_undoes engine t h n _
  | some value =>
      obtain ⟨e, he, -⟩ := h.found
      have hwritten := t.writeState_outcome (World.serves_of_nil h.faults) he value .failed
      simp only [abort, hvalue]
      rw [ViewM.outcome_bind_ok hwritten]
      exact conclude_undoes engine t (v := v.remember _) (h.change ..) n _

theorem handOver_undoes (h : w₀.Attempted v.key state w) (hrefuses : w.executor.Refuses reason) (context : Context)
    (root : Option Process) (n : Nat) (previous : Option String) :
    ∃ v' w', (t.handOver engine start context root n previous).outcome v w =
        (some (.error (.executor reason), v'), w') ∧
      Undone engine w₀ v.key ((t.failed <|> previous).getD state) w' := by
  obtain ⟨executor, hdispatch⟩ := (t.job v.key context root n).dispatch_refused engine start hrefuses
  have hrefused : w₀.Attempted v.key state { w with executor } := h.congr rfl rfl rfl rfl
  obtain ⟨v', w', habort, hundone⟩ := t.abort_undoes engine hrefused previous reason n
  refine ⟨v', w', ?_, hundone⟩
  rw [handOver, ViewM.outcome_bind_ok (ViewM.outcome_key v w)]
  exact (ViewM.outcome_bind_ok (ViewM.outcome_ofEngine hdispatch v) _).trans (ViewM.outcome_bind_ok habort _)

theorem claim_outcome (hfaults : w.faults = [])
    (hfree : w.locks.isHeld (v.key.lockKey engine.config.lockPrefix) = false) (context : Context) :
    (t.claim engine context).outcome v w = (some (.ok w.starts, v), w.claimed engine t v context) := by
  have hchecked := ViewM.isLocked_outcome (v := v) engine hfaults
  rw [hfree] at hchecked
  rw [claim, ViewM.outcome_bind_ok hchecked]
  simp only [Bool.false_eq_true, if_false]
  rw [ViewM.outcome_bind_ok (ViewM.lock_outcome engine hfaults hfree)]
  simp only [Bool.not_true, Bool.false_eq_true, if_false]
  rw [ViewM.outcome_bind_ok (t.recordStart_outcome ..), ViewM.outcome_bind_ok (t.report_outcome ..)]
  rfl

/-- The state that is there when the job is handed over, and the one to go back to. -/
theorem enter_attempts (h : w₀.Attempted v.key state w) {remembered : String}
    (hmemo : t.inProgress.isSome → v.memo.elim (some (.str state)) (·.get? v.key.field) = some (.str remembered)) :
    ∃ previous v' w' entered, t.enter.outcome v w = (some (.ok previous, v'), w') ∧ v'.key = v.key ∧
      w₀.Attempted v.key entered w' ∧ w'.executor = w.executor ∧
      previous.getD entered = if t.inProgress.isSome then remembered else state := by
  cases hvalue : t.inProgress with
  | none => exact ⟨none, v, w, state, t.enter_outcome_none hvalue v w, rfl, h, rfl, rfl⟩
  | some value =>
      obtain ⟨e, he, hstate⟩ := h.found
      have hremembered := v.getD_remembers hstate (hmemo (by rw [hvalue]; rfl))
      have henter := t.enter_outcome_some (World.serves_of_nil h.faults) he hvalue hremembered
      exact ⟨some remembered, _, _, value, henter, rfl, h.change .., rfl, rfl⟩

/--
Let the executor refuse the next job, with the lock of the field free and no store call to fail. Then the start of a
transition gives the reason as its error, no command is run or left to be run, the lock is free, and nothing is
changed but the field: it holds the failed state of the transition, or else, once an in-progress state was written,
the state that the view remembered before.
-/
theorem execute_undoes (depth : Nat) (context : Context) (root : Option Process) {stored remembered : String}
    (hfaults : w.faults = []) (hrefuses : w.executor.Refuses reason)
    (hfree : w.locks.isHeld (v.key.lockKey engine.config.lockPrefix) = false)
    (hstored : w.entities.getField v.key = .ok (.str stored))
    (hmemo : t.inProgress.isSome → v.memo.elim (some (.str stored)) (·.get? v.key.field) = some (.str remembered)) :
    ∃ v' w', (execute engine (depth + 1) t context root).outcome v w = (some (.error (.executor reason), v'), w') ∧
      w'.locks.isHeld (v.key.lockKey engine.config.lockPrefix) = false ∧
      (∃ new, w'.journal = new ++ w.journal ∧ ∀ m ∈ new, m.entry.isCommand = false) ∧ w'.pending = w.pending ∧
      w'.entities.getField v.key =
        .ok (.str (t.failed.getD (if t.inProgress.isSome then remembered else stored))) ∧
      ∀ k, k ≠ v.key → w'.entities.getField k = w.entities.getField k := by
  have hclaim := t.claim_outcome engine (v := v) hfaults hfree context
  have hclaimed := (((World.Attempted.refl hfaults hstored).lock (v.key.lockKey engine.config.lockPrefix)
    engine.config.lockTtl).start v.key ⟨w.starts, t, v.key, (w.entities.getField v.key).toOption, v.memo,
      context⟩).emit ⟨v.key, t.action, .locked⟩
  obtain ⟨previous, v₁, w₁, entered, henter, hkey, hentered, hexecutor, hprevious⟩ := t.enter_attempts hclaimed hmemo
  rw [← hkey] at hentered
  obtain ⟨v', w', hrefused, hundone⟩ := t.handOver_undoes engine (execute engine depth)
    hentered (hexecutor ▸ hrefuses) context root w.starts previous
  refine ⟨v', w', ?_, ?_⟩
  · rw [execute, executeWith_eq, ViewM.outcome_bind_ok hclaim]
    exact (ViewM.outcome_bind_ok henter _).trans hrefused
  · rw [hkey] at hundone
    have hstate : (t.failed <|> previous).getD entered =
        t.failed.getD (if t.inProgress.isSome then remembered else stored) := by
      rw [← hprevious]
      cases t.failed <;> rfl
    exact ⟨hundone.2, hundone.1.silent, hundone.1.pending, hstate ▸ hundone.1.field, hundone.1.others⟩

/-- The view remembers an older owner, but the state of now. -/
theorem locking_undone :
    let w : World := { World.start (.varying (.rejecting "queue full") .inline) (.new 16) with
      entities := ⟨[⟨"locker", "1", [("owner", .str "ann"), ("state", .str "open")]⟩]⟩ }
    let v : View := ⟨Locker.field, some ⟨"locker", "1", [("owner", .str "bob"), ("state", .str "open")]⟩⟩
    ∃ v' w', (execute (Locker.engine []) 1 Locker.locking .empty none).outcome v w =
        (some (.error (.executor "queue full"), v'), w') ∧
      w'.locks.isHeld (Locker.field.lockKey "flowgate-lock") = false ∧
      w'.entities.getField Locker.field = .ok (.str "open") := by
  intro w v
  have hrefuses : w.executor.Refuses "queue full" := rfl
  have hstored : w.entities.getField v.key = .ok (.str "open") := rfl
  have hmemo : Locker.locking.inProgress.isSome →
      v.memo.elim (some (.str "open")) (·.get? v.key.field) = some (.str "open") := fun _ => rfl
  obtain ⟨v', w', hrun, hfree, -, -, hstate, -⟩ :=
    execute_undoes (Locker.engine []) Locker.locking 0 .empty none rfl hrefuses rfl hstored hmemo
  exact ⟨v', w', hrun, hfree, hstate⟩

end Transition

namespace System

/-- The view of a bound process remembers the state in between that its own start has written, and a start that is
refused goes back to it. -/
theorem change_forgets :
    ¬ ∀ (engine : Engine) (depth : Nat) (w : World) (cs : List Call) (t : Transition) (context : Context)
      (key : StateKey) (stored reason : String),
      let s := (start w).finish engine (depth + 1) cs
      s.bound[0]?.map (·.view.key) = some key → s.world.faults = [] → s.world.executor.Refuses reason →
      s.world.locks.isHeld (key.lockKey engine.config.lockPrefix) = false →
      s.world.entities.getField key = .ok (.str stored) →
      (s.perform engine (depth + 1) (.change 0 t context)).1 = some (.error (.executor reason)) ∧
      (s.perform engine (depth + 1) (.change 0 t context)).2.world.entities.getField key =
        .ok (.str (t.failed.getD stored)) := by
  intro h
  have hstate := (h (Locker.engine []) 0 (Locker.world (.varying .inline (.rejecting "queue full")))
    [.bind (Locker.process []) Locker.field, .change 0 Locker.locking .empty] Locker.stamping .empty Locker.field
    "locked" "queue full" rfl rfl rfl (by decide +kernel) rfl).2
  have htext := congrArg (fun r : Except EngineError Json => r.toOption.bind Json.asString?) hstate
  revert htext
  decide +kernel

end System

end Workflow
