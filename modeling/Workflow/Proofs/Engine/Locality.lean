import Mathlib.Data.Multiset.ZeroCons
import Workflow.Proofs.Engine.Alike

/-!
# What surrounds a field

A job that is run under the queue has to do with the entity, the lock and the events of its own field, and with
the jobs that wait for it. What comes of it depends on nothing else, and all else stays as it was.
-/

namespace Workflow

namespace Job

/-- The job without the number of its start, which tells when it was started. -/
def unnumbered (job : Job) : Job :=
  match job.continuation with
  | .finish _ t root => { job with continuation := .finish 0 t root }
  | .reply .. => job

theorem key_unnumbered (job : Job) : job.unnumbered.key = job.key := by
  unfold unnumbered
  split <;> rfl

theorem eq_of_unnumbered {job job' : Job} (h : job.unnumbered = job'.unnumbered) :
    (∃ n n' t root, job.continuation = .finish n t root ∧
      job' = { job with continuation := .finish n' t root }) ∨
    (∃ onSuccess onFailure, job.continuation = .reply onSuccess onFailure ∧ job' = job) := by
  obtain ⟨key, action, context, steps, continuation⟩ := job
  obtain ⟨key', action', context', steps', continuation'⟩ := job'
  cases continuation <;> cases continuation' <;> cases h
  · exact .inl ⟨_, _, _, _, rfl, rfl⟩
  · exact .inr ⟨_, _, rfl, rfl⟩

end Job

/-- All that a run on a field has to do with. -/
structure Surroundings where
  entity : Option Entity
  lease : Option Nat
  events : List Event
  /-- The jobs on the field, in no order and without numbers. -/
  waiting : Multiset Job

namespace World

def waiting (w : World) (k : StateKey) : Multiset Job :=
  ((w.pending.filter (·.key = k)).map Job.unnumbered : List Job)

def around (lockPrefix : String) (k : StateKey) (w : World) : Surroundings :=
  ⟨w.entities.find? k.kind k.id, w.locks.lease? (k.lockKey lockPrefix), w.bus.log.filter (·.key = k),
    w.waiting k⟩

theorem waiting_of_perm {w w' : World} {job : Job} (h : w'.pending.Perm (job :: w.pending)) (k : StateKey) :
    w'.waiting k = if job.key = k then job.unnumbered ::ₘ w.waiting k else w.waiting k := by
  have hperm := (h.filter (·.key = k)).map Job.unnumbered
  have hwaiting : w'.waiting k = (((job :: w.pending).filter (·.key = k)).map Job.unnumbered : List Job) :=
    Multiset.coe_eq_coe.2 hperm
  rw [hwaiting]
  split
  · rename_i hkey
    simp [hkey, waiting]
  · rename_i hkey
    simp [hkey, waiting]

theorem pending_push (w : World) (job : Job) :
    ({ w with queue := w.queue ++ [job] } : World).pending.Perm (job :: w.pending) := by
  simp [Scene.pending, List.perm_middle]

theorem waiting_eq_zero {w : World} {k : StateKey} : w.waiting k = 0 ↔ ∀ job ∈ w.pending, job.key ≠ k := by
  simp [waiting]

/-- The world hands jobs to the queue, and no store call is to fail in it. -/
structure Queueing (w : World) : Prop where
  faults : w.faults = []
  executor : w.executor = .queue

/-- From the one world to the other there are changes only on these fields. -/
structure Confined (lockPrefix : String) (keys : StateKey → Prop) (w w' : World) : Prop where
  entities : ∀ kind id, (∀ k, keys k → ¬ (k.kind = kind ∧ k.id = id)) →
    w'.entities.find? kind id = w.entities.find? kind id
  leases : ∀ lockKey, (∀ k, keys k → k.lockKey lockPrefix ≠ lockKey) →
    w'.locks.lease? lockKey = w.locks.lease? lockKey
  events : ∀ k, ¬ keys k → w'.bus.log.filter (·.key = k) = w.bus.log.filter (·.key = k)
  waiting : ∀ k, ¬ keys k → w'.waiting k = w.waiting k

namespace Confined

variable {p : String} {keys keys' : StateKey → Prop} {w w' w'' : World}

theorem still (hentities : w'.entities = w.entities := by rfl) (hlocks : w'.locks = w.locks := by rfl)
    (hbus : w'.bus = w.bus := by rfl) (hpending : w'.pending = w.pending := by rfl) :
    w.Confined p keys w' where
  entities _ _ _ := by rw [hentities]
  leases _ _ := by rw [hlocks]
  events _ _ := by rw [hbus]
  waiting _ _ := by rw [World.waiting, hpending, World.waiting]

theorem trans (h : w.Confined p keys w') (h' : w'.Confined p keys w'') : w.Confined p keys w'' where
  entities kind id hother := (h'.entities kind id hother).trans (h.entities kind id hother)
  leases lockKey hother := (h'.leases lockKey hother).trans (h.leases lockKey hother)
  events k hother := (h'.events k hother).trans (h.events k hother)
  waiting k hother := (h'.waiting k hother).trans (h.waiting k hother)

theorem mono (h : w.Confined p keys w') (hkeys : ∀ k, keys k → keys' k) : w.Confined p keys' w' where
  entities kind id hother := h.entities kind id fun k hk => hother k (hkeys k hk)
  leases lockKey hother := h.leases lockKey fun k hk => hother k (hkeys k hk)
  events k hother := h.events k fun hk => hother (hkeys k hk)
  waiting k hother := h.waiting k fun hk => hother (hkeys k hk)

/-- A job is taken out. -/
theorem taken {job : Job} {queue pool : List Job} (h : w.pending.Perm (job :: (queue ++ pool))) :
    w.Confined p (· = job.key) { w with queue := queue, pool := pool } where
  entities _ _ _ := rfl
  leases _ _ := rfl
  events _ _ := rfl
  waiting k hk := by
    rw [waiting_of_perm (w := { w with queue := queue, pool := pool }) h, if_neg fun heq => hk heq.symm]

/-- What surrounds a field that shares neither its entity nor its lock with these stays as it is. -/
theorem around (h : w.Confined p keys w') {k : StateKey}
    (hk : ∀ k', keys k' → ¬ (k'.kind = k.kind ∧ k'.id = k.id) ∧ k'.lockKey p ≠ k.lockKey p) :
    w'.around p k = w.around p k := by
  have hkey : ¬ keys k := fun hmem => (hk k hmem).1 ⟨rfl, rfl⟩
  simp only [World.around, h.entities k.kind k.id fun k' hk' => (hk k' hk').1,
    h.leases (k.lockKey p) fun k' hk' => (hk k' hk').2, h.events k hkey, h.waiting k hkey]

/-- Where the same surrounds all the fields that were changed, all is the same. -/
theorem agree {w₁ w₁' : World} (h : w.Confined p keys w₁) (h' : w.Confined p keys w₁')
    (hsame : ∀ k, keys k → w₁.around p k = w₁'.around p k) :
    (∀ kind id, w₁.entities.find? kind id = w₁'.entities.find? kind id) ∧
      (∀ lockKey, w₁.locks.lease? lockKey = w₁'.locks.lease? lockKey) ∧
      ∀ k, w₁.bus.log.filter (·.key = k) = w₁'.bus.log.filter (·.key = k) := by
  refine ⟨fun kind id => ?_, fun lockKey => ?_, fun k => ?_⟩
  · by_cases hchanged : ∃ k, keys k ∧ k.kind = kind ∧ k.id = id
    · obtain ⟨k, hk, rfl, rfl⟩ := hchanged
      exact congrArg Surroundings.entity (hsame k hk)
    · have hother (k) (hk : keys k) : ¬ (k.kind = kind ∧ k.id = id) := fun heq => hchanged ⟨k, hk, heq⟩
      exact (h.entities kind id hother).trans (h'.entities kind id hother).symm
  · by_cases hchanged : ∃ k, keys k ∧ k.lockKey p = lockKey
    · obtain ⟨k, hk, rfl⟩ := hchanged
      exact congrArg Surroundings.lease (hsame k hk)
    · have hother (k) (hk : keys k) : k.lockKey p ≠ lockKey := fun heq => hchanged ⟨k, hk, heq⟩
      exact (h.leases lockKey hother).trans (h'.leases lockKey hother).symm
  · by_cases hk : keys k
    · exact congrArg Surroundings.events (hsame k hk)
    · exact (h.events k hk).trans (h'.events k hk).symm

end Confined

/-- The one world comes from the other by a change on the field, which does `f` to what surrounds the field. -/
structure Alters (lockPrefix : String) (k : StateKey) (f : Surroundings → Surroundings) (w w' : World) :
    Prop where
  queueing : w.Queueing → w'.Queueing
  confined : w.Confined lockPrefix (· = k) w'
  around : w'.around lockPrefix k = f (w.around lockPrefix k)

section

variable {p : String} {k : StateKey} (w : World)

theorem struck_alters (call : StoreCall) : w.Alters p k id (w.struck call) where
  queueing h := ⟨by rw [World.struck, h.faults]; rfl, h.executor⟩
  confined := .still
  around := rfl

theorem record_alters (e : Entry) : w.Alters p k id (w.record e) where
  queueing h := ⟨h.faults, h.executor⟩
  confined := .still
  around := rfl

theorem started_alters (s : Started) : w.Alters p k id ((w.takeOff k).record (.started s)) where
  queueing h := ⟨h.faults, h.executor⟩
  confined := .still
  around := rfl

theorem land_alters (f : Flight) : w.Alters p k id (w.land f) where
  queueing h := ⟨h.faults, h.executor⟩
  confined := .still
  around := rfl

theorem emit_alters (action : String) (kind : EventKind) :
    w.Alters p k (fun s => { s with events := s.events ++ [⟨k, action, kind⟩] })
      (w.emit ⟨k, action, kind⟩) where
  queueing h := ⟨h.faults, h.executor⟩
  confined := by
    refine ⟨fun _ _ _ => rfl, fun _ _ => rfl, fun k' hk' => ?_, fun _ _ => rfl⟩
    have hother : k ≠ k' := fun h => hk' h.symm
    simp [World.emit, World.record, hother]
  around := by
    simp [World.around, World.emit, World.record, World.waiting, Scene.pending]

theorem lock_alters (ttl : Nat) :
    w.Alters p k
      (fun s => { s with
        lease := if (s.lease.map LockStore.isLive).getD false then s.lease else some ttl })
      (w.lock (k.lockKey p) ttl) where
  queueing h := ⟨h.faults, h.executor⟩
  confined := by
    refine ⟨fun _ _ _ => rfl, fun lockKey hother => ?_, fun _ _ => rfl, fun _ _ => rfl⟩
    exact LockStore.lease?_acquire_ne _ _ (hother k rfl).symm
  around := by
    have hlease := LockStore.lease?_acquire_self w.locks (k.lockKey p) ttl
    simp only [World.around, World.lock, World.record, hlease]
    rfl

theorem unlock_alters : w.Alters p k (fun s => { s with lease := none }) (w.unlock (k.lockKey p)) where
  queueing h := ⟨h.faults, h.executor⟩
  confined := by
    refine ⟨fun _ _ _ => rfl, fun lockKey hother => ?_, fun _ _ => rfl, fun _ _ => rfl⟩
    exact LockStore.lease?_release_ne _ (hother k rfl).symm
  around := by
    have hlease := LockStore.lease?_release_self w.locks (k.lockKey p)
    simp only [World.around, World.unlock, World.record, hlease]
    rfl

theorem write_alters {field : String} {value : Json} {entities : EntityStore}
    (hset : w.entities.setField { k with field := field } value = .ok entities) :
    w.Alters p k
      (fun s => { s with
        entity := s.entity.map fun e => if EntityStore.isAt k.kind k.id e then e.set field value else e })
      (w.write entities { k with field := field } value) where
  queueing h := ⟨h.faults, h.executor⟩
  confined := by
    refine ⟨fun kind id hother => ?_, fun _ _ => rfl, fun _ _ => rfl, fun _ _ => rfl⟩
    exact EntityStore.find?_setField_of_ne hset (hother k rfl)
  around := by
    simp only [World.around, World.write, World.record, EntityStore.find?_setField hset]
    rfl

theorem remove_alters : w.Alters p k (fun s => { s with entity := none }) (w.remove k.kind k.id) where
  queueing h := ⟨h.faults, h.executor⟩
  confined := by
    refine ⟨fun kind id hother => ?_, fun _ _ => rfl, fun _ _ => rfl, fun _ _ => rfl⟩
    exact w.entities.find?_remove_of_ne (hother k rfl)
  around := by
    simp only [World.around, World.remove, World.record, EntityStore.find?_remove_self]
    rfl

theorem push_alters {job : Job} (hkey : job.key = k) :
    w.Alters p k (fun s => { s with waiting := job.unnumbered ::ₘ s.waiting })
      { w with queue := w.queue ++ [job] } where
  queueing h := ⟨h.faults, h.executor⟩
  confined := by
    refine ⟨fun _ _ _ => rfl, fun _ _ => rfl, fun _ _ => rfl, fun k' hk' => ?_⟩
    have hother : job.key ≠ k' := fun h => hk' (h.symm.trans hkey)
    rw [waiting_of_perm (pending_push w job), if_neg hother]
  around := by
    simp only [World.around]
    rw [waiting_of_perm (pending_push w job), if_pos hkey]

end

/-- The world is reached from `w₀` by changes on the field. -/
structure On (lockPrefix : String) (k : StateKey) (w₀ w : World) : Prop where
  queueing : w.Queueing
  confined : w₀.Confined lockPrefix (· = k) w

/-- Two worlds are reached from these by changes on the field, and the same surrounds it now. -/
structure Parallel (lockPrefix : String) (k : StateKey) (w₀ w₀' w w' : World) : Prop where
  left : w₀.On lockPrefix k w
  right : w₀'.On lockPrefix k w'
  same : w.around lockPrefix k = w'.around lockPrefix k

theorem Parallel.next {p : String} {k : StateKey} {f : Surroundings → Surroundings} {w₀ w₀' w w' w₁ w₁' : World}
    (h : Parallel p k w₀ w₀' w w') (hw : w.Alters p k f w₁) (hw' : w'.Alters p k f w₁') :
    Parallel p k w₀ w₀' w₁ w₁' where
  left := ⟨hw.queueing h.left.queueing, h.left.confined.trans hw.confined⟩
  right := ⟨hw'.queueing h.right.queueing, h.right.confined.trans hw'.confined⟩
  same := by rw [hw.around, hw'.around, h.same]

end World

/-- Worlds in which the same surrounds the field; starts may get other numbers in the one than in the other. -/
def Likeness.around (engine : Engine) (k : StateKey) (w₀ w₀' : World) : Likeness engine where
  like := World.Parallel engine.config.lockPrefix k w₀ w₀'
  keys := (· = k)
  numbers _ _ := True
  struck {w w'} call h := by
    refine ⟨?_, h.next (w.struck_alters call) (w'.struck_alters call)⟩
    rw [h.left.queueing.faults, h.right.queueing.faults]
  found hk h := by
    subst hk
    exact congrArg Surroundings.entity h.same
  held hk h := by
    subst hk
    have hlease := congrArg Surroundings.lease h.same
    simp only [World.around] at hlease
    simp only [LockStore.isHeld, hlease]
  remarked {w w' e} _ h := h.next (w.record_alters e) (w'.record_alters e)
  told {_ w w'} action kind hk h := by
    subst hk
    exact h.next (w.emit_alters action kind) (w'.emit_alters action kind)
  locked {_ w w'} hk h := by
    subst hk
    exact h.next (w.lock_alters _) (w'.lock_alters _)
  unlocked {_ w w'} hk h := by
    subst hk
    exact h.next w.unlock_alters w'.unlock_alters
  started {w w'} s hk h := by
    subst hk
    exact ⟨trivial, h.next (w.started_alters _) (w'.started_alters _)⟩
  landed {_ w w' n n'} _ _ h := h.next (w.land_alters _) (w'.land_alters _)
  wrote {_ w w' _ _ _ _} hk hset hset' h := by
    subst hk
    exact h.next (w.write_alters hset) (w'.write_alters hset')
  removed {_ w w'} hk h := by
    subst hk
    exact h.next w.remove_alters w'.remove_alters

/-! ## Jobs under the queue -/

section

variable {engine : Engine} {k : StateKey} {w₀ w₀' : World} {start start' : Start}

theorem Job.dispatch_alike {job job' : Job} (hkey : job.key = k) (hsame : job.unnumbered = job'.unnumbered) :
    Alike (.around engine k w₀ w₀') (job.dispatch engine start) (job'.dispatch engine start') := by
  have hkey' : job'.key = k := by rw [← job'.key_unnumbered, ← hsame, job.key_unnumbered, hkey]
  intro w w' h
  unfold Job.dispatch
  rw [EngineM.outcome_bind_some (EngineM.outcome_get w), EngineM.outcome_bind_some (EngineM.outcome_get w'),
    h.left.queueing.executor, h.right.queueing.executor]
  exact ⟨rfl, fun _ _ => trivial, h.next (w.push_alters hkey) (hsame ▸ w'.push_alters hkey')⟩

namespace Transition

variable (t : Transition)

theorem handOver_alike (context : Context) (root : Option Process) (number number' : Nat)
    (previous : Option String) :
    Alike (.around engine k w₀ w₀') (t.handOver engine start context root number previous)
      (t.handOver engine start' context root number' previous) := by
  refine ViewM.bindKey_alike fun key hkey => ?_
  refine .bind (ViewM.ofEngine_alike (Job.dispatch_alike hkey rfl)) fun r => ?_
  match r with
  | .ok () => exact .pure
  | .error (.continuation e) => exact .throw
  | .error (.rejected reason) =>
      exact .bind (t.abort_alike (.some trivial) previous reason) fun _ => .throw

/-- Under the queue nothing is started from inside a start. -/
theorem executeWith_alike (context : Context) (root : Option Process) :
    Alike (.around engine k w₀ w₀') (executeWith engine start t context root)
      (executeWith engine start' t context root) := by
  refine .bind ViewM.isLocked_impartial fun locked => ?_
  extract_lets go rest go' rest'
  have hgo (u) : Alike (.around engine k w₀ w₀') (go u) (go' u) := by
    refine t.recordStart_alike context fun n n' _ => .bind (t.report_impartial _) fun _ => ?_
    exact .bind t.enter_impartial fun previous => t.handOver_alike context root n n' previous
  have hrest (taken) : Alike (.around engine k w₀ w₀') (rest taken) (rest' taken) := by
    cases taken with
    | false => exact .bind (t.report_impartial _) fun _ => .bind .throw hgo
    | true => exact hgo ()
  split
  · exact .bind .pure hrest
  · exact .bind ViewM.lock_impartial hrest

theorem execute_impartial (depth : Nat) (t : Transition) (context : Context) (root : Option Process) :
    Impartial (.around engine k w₀ w₀') (execute engine depth t context root) := by
  cases depth with
  | zero => exact ViewM.ofEngine_alike fun w w' h => ⟨rfl, nofun, h⟩
  | succ depth => exact t.executeWith_alike context root

end Transition

namespace Job

/-- Runs the job; when it is detached, its error is told and not returned. -/
def settle (engine : Engine) (start : Start) (detached : Bool) (job : Job) :
    EngineM (Except EngineError Unit) :=
  if detached then do
    job.runDetached engine start
    return .ok ()
  else job.run engine start

variable {job job' : Job} (hkey : job.key = k) (hsame : job.unnumbered = job'.unnumbered)
  {allowed : Op → Prop} (hallowed : ∀ op, allowed op → op.isInvoke = false) (hjob : job.Obeys allowed)
  (hstart : ∀ t context root, Alike (.around engine k w₀ w₀') (start t context root) (start' t context root))

include hkey hsame hallowed hjob hstart

theorem run_alike : Alike (.around engine k w₀ w₀') (job.run engine start) (job'.run engine start') := by
  have hsteps : Alike (.around engine k w₀ w₀') (Command.runAll engine start job.steps)
      (Command.runAll engine start' job.steps) := Command.runAll_alike hallowed job.steps hjob.steps
  have hran := hsteps job.context (.fresh job.key) hkey
  have hnoted (note : Note) (r : Except EngineError Unit) :
      Impartial (.around engine k w₀ w₀') (do EngineM.record (.note note); return r) :=
    .bind (.modify fun _ _ h => (Likeness.around engine k w₀ w₀').remarked rfl h) fun _ => .pure
  obtain ⟨n, n', t, root, hcont, rfl⟩ | ⟨onSuccess, onFailure, hcont, rfl⟩ := Job.eq_of_unnumbered hsame
  · have ht := hjob.transition n t root hcont
    refine Likeness.Agree.bind hran fun ⟨⟨failure, context⟩, _⟩ _ => ?_
    rw [hcont]
    cases failure with
    | none =>
        exact ViewM.onFresh_alike hkey (t.complete_alike (.some trivial) hallowed hstart context root ht)
    | some f => exact ViewM.onFresh_alike hkey (t.fail_alike (.some trivial) hallowed f context ht)
  · refine Likeness.Agree.bind hran fun ⟨⟨failure, context⟩, _⟩ _ => ?_
    rw [hcont]
    cases failure with
    | none => exact hnoted _ _
    | some f => exact hnoted _ _

theorem settle_alike (detached : Bool) :
    Alike (.around engine k w₀ w₀') (job.settle engine start detached) (job'.settle engine start' detached) := by
  have hrun := run_alike hkey hsame hallowed hjob hstart
  obtain ⟨haction, hkeys⟩ : job'.action = job.action ∧ job'.key = job.key := by
    obtain ⟨_, _, _, _, -, rfl⟩ | ⟨_, _, -, rfl⟩ := Job.eq_of_unnumbered hsame <;> exact ⟨rfl, rfl⟩
  cases detached with
  | false => exact hrun
  | true =>
      refine .bind (m := EngineM) (.bind (m := EngineM) hrun fun r => ?_) fun _ => .pure
      cases r with
      | ok _ => exact .pure
      | error e =>
          rw [haction, hkeys]
          exact .modify fun _ _ h => (Likeness.around engine k w₀ w₀').told _ _ hkey h

variable (engine) in
omit hkey hsame hstart in
theorem settle_on {w : World} (hw : w.Queueing) (depth : Nat) (detached : Bool) :
    w.On engine.config.lockPrefix job.key
      (EngineM.outcome (job.settle engine (Transition.execute engine depth) detached) w).2 := by
  have hparallel : World.Parallel engine.config.lockPrefix job.key w w w w :=
    ⟨⟨hw, .still⟩, ⟨hw, .still⟩, rfl⟩
  exact (settle_alike rfl rfl hallowed hjob (Transition.execute_impartial depth) detached w w
    hparallel).like.left

end Job

end

end Workflow
