import Mathlib.Logic.Relation
import Workflow.Proofs.Engine.Locality
import Workflow.Proofs.MutualExclusion
import Workflow.Proofs.Watches

/-!
# Schedules

The jobs that wait under the queue can be run in any order, when they are on different entities: run after run,
a field goes the same way whatever is run in between, for nothing else has to do with what surrounds it.
-/

namespace Workflow

/-! ## How a field goes on -/

/-- A job on the field is run: what surrounds the field before the job is taken, and what does afterwards. -/
inductive Advances (engine : Engine) (depth : Nat) (detached : Bool) (k : StateKey)
    (before after : Surroundings) : Prop
  | run {w w' : World} {job : Job} {r : Except EngineError Unit} (queueing : w.Queueing) (onKey : job.key = k)
      (obeys : job.Obeys (Op.Allowed False)) (waits : before.waiting = {job.unnumbered})
      (taken : w.around engine.config.lockPrefix k = { before with waiting := 0 })
      (ran : EngineM.outcome (job.settle engine (Transition.execute engine depth) detached) w = (some r, w'))
      (left : w'.around engine.config.lockPrefix k = after)

namespace Advances

variable {engine : Engine} {depth : Nat} {detached : Bool} {k : StateKey}

theorem rightUnique : Relator.RightUnique (Advances engine depth detached k) := by
  rintro before after after' ⟨hw, hkey, hobeys, hwaits, htaken, hran, rfl⟩
    ⟨hw', hkey', hobeys', hwaits', htaken', hran', rfl⟩
  have hsame := Multiset.singleton_inj.1 (hwaits.symm.trans hwaits')
  have hparallel : World.Parallel engine.config.lockPrefix k _ _ _ _ :=
    ⟨⟨hw, .still⟩, ⟨hw', .still⟩, htaken.trans htaken'.symm⟩
  have hlike := (Job.settle_alike hkey hsame (fun _ => Op.isInvoke_of_allowed) hobeys
    (Transition.execute_impartial depth) detached _ _ hparallel).like
  rw [hran, hran'] at hlike
  exact hlike.same

/-- A field goes on until no job waits for it, and it goes only one way. -/
theorem eq_of_done {before after after' : Surroundings}
    (h : Relation.ReflTransGen (Advances engine depth detached k) before after)
    (h' : Relation.ReflTransGen (Advances engine depth detached k) before after')
    (hdone : after.waiting = 0) (hdone' : after'.waiting = 0) : after = after' := by
  have hstays {a b : Surroundings} (ha : a.waiting = 0)
      (hab : Relation.ReflTransGen (Advances engine depth detached k) a b) : b = a := by
    cases hab.cases_head with
    | inl heq => exact heq.symm
    | inr hstep =>
        obtain ⟨_, ⟨-, -, -, hwaits, -, -, -⟩, -⟩ := hstep
        rw [ha] at hwaits
        exact absurd hwaits.symm (Multiset.singleton_ne_zero _)
  cases Relation.ReflTransGen.total_of_right_unique rightUnique h h' with
  | inl hgoes => exact (hstays hdone hgoes).symm
  | inr hgoes => exact hstays hdone' hgoes

end Advances

/-! ## Orderly systems -/

/-- The watch that sees to it that commands leave locks alone and start nothing. -/
def obedience (engine : Engine) : Watch engine where
  holds _ := True
  keys _ := True
  serves _ t := t.Obeys (Op.Allowed False)
  allows _ := Op.Allowed False
  keeps _ := True
  sees _ _ := True
  legit _ _ := True
  calm := False
  faultless := nofun
  obeys ht := ht
  invoked hop _ := hop.elim
  writes _ _ := trivial
  recalled _ _ := trivial
  fresh _ := Watch.unasked
  seen _ _ := trivial
  read _ _ := ⟨trivial, trivial⟩
  quiet _ _ _ := trivial
  queued _ _ := trivial
  pooled _ _ := trivial
  switched _ _ := trivial
  wrote _ _ _ _ _ := trivial
  removed _ _ _ := trivial
  changed _ _ _ _ _ _ _ _ := trivial
  lost _ _ _ _ _ := trivial

/-- Runs the job at the place; when it is detached, its error is told and not returned. -/
def Call.settle (detached : Bool) (place : Nat) : Call :=
  if detached then .runDetached place else .run place

theorem Call.settle_obeys (allowed : Op → Prop) (detached : Bool) (place : Nat) :
    (Call.settle detached place).Obeys allowed := by
  cases detached <;> trivial

namespace System

variable {engine : Engine} {depth : Nat}

/-- Between two calls, no two jobs have a lock in common, and their commands leave locks alone. -/
structure Orderly (engine : Engine) (httl : engine.config.lockTtl ≠ 0) (s : System) : Prop where
  exclusive : (exclusion engine httl).Tended [] s
  obedient : (obedience engine).Tended s

variable {httl : engine.config.lockTtl ≠ 0} {s : System}

namespace Orderly

theorem start {w : World} (hw : w.Idle) : (System.start w).Orderly engine httl :=
  ⟨start_exclusive httl hw, .start ⟨trivial, hw.jobless _⟩⟩

theorem perform (hs : s.Orderly engine httl) (hengine : engine.Obeys (Op.Allowed False)) {c : Call}
    (hc : c.Obeys (Op.Allowed False)) (hsome : (s.perform engine depth c).1.isSome) :
    (s.perform engine depth c).2.Orderly engine httl := by
  refine ⟨?_, ?_⟩
  · exact perform_exclusive httl (hengine.mono fun _ => Op.Allowed.invoking) hs.exclusive
      (hc.mono fun _ => Op.Allowed.invoking) hsome
  · have hsuits : (obedience engine).Suits (s.report engine depth c) := by
      refine ⟨?_, fun _ _ => trivial⟩
      cases c with
      | bind process key => exact hc
      | change i t context => exact fun _ _ => hc
      | _ => trivial
    exact (Watch.perform_tended ⟨fun _ => trivial, fun _ _ h => h⟩ hs.obedient depth hsuits).2 hsome

end Orderly

theorem perform_settle (s : System) (detached : Bool) (place : Nat) :
    s.perform engine depth (.settle detached place) =
      s.onJob place (Job.settle engine (Transition.execute engine depth) detached) := by
  cases detached <;> rfl

/-- A job is taken and run, which has to do with its own field only; or there is none at that place. -/
theorem perform_settle_cases (hs : s.Orderly engine httl) (hqueueing : s.world.Queueing) {detached : Bool}
    {place : Nat} {r : Except EngineError Unit} {s' : System}
    (hperform : s.perform engine depth (.settle detached place) = (some r, s')) :
    s' = s ∨ ∃ job ∈ s.world.pending, s'.world.Queueing ∧
      s.world.Confined engine.config.lockPrefix (· = job.key) s'.world ∧
      Advances engine depth detached job.key (s.world.around engine.config.lockPrefix job.key)
        (s'.world.around engine.config.lockPrefix job.key) := by
  rw [perform_settle] at hperform
  rcases s.onJob_cases place (Job.settle engine (Transition.execute engine depth) detached) with
    heq | ⟨job, w, htake, heq⟩
  · exact .inl (congrArg Prod.snd (hperform.symm.trans heq))
  · obtain ⟨queue, pool, hperm, rfl⟩ := World.takeJob_some htake
    obtain ⟨hran, rfl⟩ := Prod.mk.inj (heq.symm.trans hperform)
    let w : World := { s.world with queue := queue, pool := pool }
    have hjob : job ∈ s.world.pending := hperm.symm.mem_iff.1 (List.mem_cons_self ..)
    have hcarries := hs.obedient.base.jobs job hjob fun _ => trivial
    have hobeys : job.Obeys (Op.Allowed False) := ⟨hcarries.steps, hcarries.transition⟩
    have hw : w.Queueing := ⟨hqueueing.faults, hqueueing.executor⟩
    have hon := Job.settle_on engine (fun _ => Op.isInvoke_of_allowed) hobeys hw depth detached
    have halone : w.waiting job.key = 0 := by
      have hkeys := (hperm.map Job.key).nodup_iff.1 hs.exclusive.base.holds.now.jobKeys
      rw [World.waiting_eq_zero]
      intro job' hjob' hkey
      exact (List.nodup_cons.1 hkeys).1 (hkey ▸ List.mem_map_of_mem hjob')
    refine .inr ⟨job, hjob, hon.queueing, (World.Confined.taken hperm).trans hon.confined, ?_⟩
    refine .run hw rfl hobeys ?_ ?_ (Prod.ext hran rfl) rfl
    · simp [World.around, World.waiting_of_perm (w := w) hperm, halone]
    · simp only [World.around, halone]
      rfl

/-! ## Schedules -/

/-- The system is reached from `s₀` by runs of jobs, where each field goes its own way. -/
structure Reached (engine : Engine) (httl : engine.config.lockTtl ≠ 0) (depth : Nat) (detached : Bool)
    (s₀ s : System) : Prop where
  orderly : s.Orderly engine httl
  queueing : s.world.Queueing
  confined : s₀.world.Confined engine.config.lockPrefix (fun k => ∃ job ∈ s₀.world.pending, job.key = k) s.world
  advanced : ∀ job ∈ s₀.world.pending, Relation.ReflTransGen (Advances engine depth detached job.key)
    (s₀.world.around engine.config.lockPrefix job.key) (s.world.around engine.config.lockPrefix job.key)

variable {detached : Bool} {s₀ : System}

theorem Reached.start (hs : s₀.Orderly engine httl) (hqueueing : s₀.world.Queueing) :
    Reached engine httl depth detached s₀ s₀ :=
  ⟨hs, hqueueing, .still, fun _ _ => .refl⟩

/-- What waits is for a field for which a job waited at first. -/
theorem Reached.origin (hs : Reached engine httl depth detached s₀ s) {job : Job}
    (hjob : job ∈ s.world.pending) : ∃ job₀ ∈ s₀.world.pending, job₀.key = job.key := by
  by_contra hnone
  have hwaiting := hs.confined.waiting job.key hnone
  have hzero : s₀.world.waiting job.key = 0 :=
    World.waiting_eq_zero.2 fun job' hjob' hkey => hnone ⟨job', hjob', hkey⟩
  exact World.waiting_eq_zero.1 (hwaiting.trans hzero) job hjob rfl

theorem Reached.agree {s' : System} (hs : Reached engine httl depth detached s₀ s)
    (hs' : Reached engine httl depth detached s₀ s') (hdone : s.world.pending = [])
    (hdone' : s'.world.pending = []) {job : Job} (hjob : job ∈ s₀.world.pending) :
    s.world.around engine.config.lockPrefix job.key = s'.world.around engine.config.lockPrefix job.key := by
  refine Advances.eq_of_done (hs.advanced job hjob) (hs'.advanced job hjob) ?_ ?_
  · exact World.waiting_eq_zero.2 (by rw [hdone]; exact nofun)
  · exact World.waiting_eq_zero.2 (by rw [hdone']; exact nofun)

section

variable (hengine : engine.Obeys (Op.Allowed False))
  (hapart : (s₀.world.pending.map fun job => (job.key.kind, job.key.id)).Nodup)

include hengine hapart

/-- Jobs of one entity do not wait, and so the run of a job has nothing to do with another that waits. -/
theorem Reached.perform (hs : Reached engine httl depth detached s₀ s) (hs₀ : s₀.Orderly engine httl)
    {place : Nat} {r : Except EngineError Unit} {s' : System}
    (hperform : s.perform engine depth (.settle detached place) = (some r, s')) :
    Reached engine httl depth detached s₀ s' := by
  have horderly : s'.Orderly engine httl := by
    have hsome : (s.perform engine depth (.settle detached place)).1.isSome := by rw [hperform]; rfl
    have hlater := hs.orderly.perform hengine (Call.settle_obeys _ detached place) hsome
    rwa [hperform] at hlater
  rcases perform_settle_cases hs.orderly hs.queueing hperform with
    rfl | ⟨job, hjob, hqueueing, hconfined, hadvances⟩
  · exact hs
  · obtain ⟨job₀, hjob₀, hkey⟩ := hs.origin hjob
    refine ⟨horderly, hqueueing, hs.confined.trans (hconfined.mono fun k hk => ⟨job₀, hjob₀, hk ▸ hkey⟩), ?_⟩
    intro job' hjob'
    have hadvanced := hs.advanced job' hjob'
    -- The field of the job that was run has gone on by it, and the others are where they were.
    by_cases hsame : job'.key = job.key
    · rw [hsame] at hadvanced ⊢
      exact hadvanced.tail hadvances
    · have hother : job₀ ≠ job' := fun heq => hsame (heq ▸ hkey)
      rw [hconfined.around fun k hk => ?_]
      · exact hadvanced
      · rw [hk, ← hkey]
        refine ⟨fun hentity => hother ?_, fun hlock => hother ?_⟩
        · exact List.inj_on_of_nodup_map hapart hjob₀ hjob' (Prod.ext hentity.1 hentity.2)
        · exact List.inj_on_of_nodup_map hs₀.exclusive.base.holds.now.single hjob₀ hjob' hlock

/-- The runs of jobs at these places, one after the other, all return, and no job waits in the end. -/
def Exhausts (engine : Engine) (depth : Nat) (detached : Bool) (s : System) (places : List Nat) : Prop :=
  (∀ r ∈ s.run engine depth (places.map (Call.settle detached)), r.result.isSome) ∧
    (s.finish engine depth (places.map (Call.settle detached))).world.pending = []

theorem Exhausts.reached {places : List Nat} (h : s₀.Exhausts engine depth detached places)
    (hs₀ : s₀.Orderly engine httl) (hqueueing : s₀.world.Queueing) :
    Reached engine httl depth detached s₀ (s₀.finish engine depth (places.map (Call.settle detached))) := by
  refine finish_keeps (fun s c hc hs hsome => ?_) (.start hs₀ hqueueing) h.1
  obtain ⟨place, -, rfl⟩ := List.mem_map.1 hc
  obtain ⟨r, hr⟩ := Option.isSome_iff_exists.1 hsome
  exact hs.perform hengine hapart hs₀ (Prod.ext hr rfl)

end

variable {cs : List Call} {w : World} {places places' : List Nat}

/--
Let calls from an idle world return and leave jobs of different entities to wait under the queue, where no
store call is to fail; commands leave locks alone and start nothing. Whatever the order in which these jobs and
those that come up meanwhile are run, in the same way each, once they are all run the stores hold the same, and
the same events have told of each field, in the same order.
-/
theorem schedules_agree (httl : engine.config.lockTtl ≠ 0) (hw : w.Idle)
    (hengine : engine.Obeys (Op.Allowed False)) (hcs : ∀ c ∈ cs, c.Obeys (Op.Allowed False))
    (hreturned : ∀ r ∈ (start w).run engine depth cs, r.result.isSome)
    (hqueueing : ((start w).finish engine depth cs).world.Queueing)
    (hapart : (((start w).finish engine depth cs).world.pending.map fun job =>
      (job.key.kind, job.key.id)).Nodup)
    (h : ((start w).finish engine depth cs).Exhausts engine depth detached places)
    (h' : ((start w).finish engine depth cs).Exhausts engine depth detached places') :
    let s := (start w).finish engine depth cs
    let last := (s.finish engine depth (places.map (Call.settle detached))).world
    let last' := (s.finish engine depth (places'.map (Call.settle detached))).world
    (∀ kind id, last.entities.find? kind id = last'.entities.find? kind id) ∧
      (∀ lockKey, last.locks.lease? lockKey = last'.locks.lease? lockKey) ∧
      ∀ k, last.bus.log.filter (·.key = k) = last'.bus.log.filter (·.key = k) := by
  intro s last last'
  have horderly : s.Orderly engine httl :=
    finish_keeps (fun s c hc hs hsome => hs.perform hengine (hcs c hc) hsome) (.start hw) hreturned
  have hlast := h.reached hengine hapart horderly hqueueing
  have hlast' := h'.reached hengine hapart horderly hqueueing
  apply hlast.confined.agree hlast'.confined
  rintro _ ⟨job, hjob, rfl⟩
  exact hlast.agree hlast' h.2 h'.2 hjob

/-- Two lockers. -/
def pair : World :=
  { Locker.world .queue with
    entities := ⟨[⟨"locker", "1", [("state", .str "open")]⟩, ⟨"locker", "2", [("state", .str "open")]⟩]⟩ }

/-- Both lockers are locked, and are to be sealed. -/
def pairCalls : List Call :=
  [.bind Locker.sealing ⟨"locker", "1", "state"⟩, .bind Locker.sealing ⟨"locker", "2", "state"⟩,
    .invoke 0 "lock" none .empty, .invoke 1 "lock" none .empty]

def pairWaits : System :=
  (start pair).finish (Locker.engine []) 2 pairCalls

theorem pairWaits_apart : (∀ r ∈ (start pair).run (Locker.engine []) 2 pairCalls, r.result.isSome) ∧
    pairWaits.world.faults = [] ∧ pairWaits.world.executor = .queue ∧ pairWaits.world.pending.length = 2 ∧
    (pairWaits.world.pending.map fun job => (job.key.kind, job.key.id)).Nodup := by
  decide +kernel

instance (engine : Engine) (depth : Nat) (detached : Bool) (s : System) (places : List Nat) :
    Decidable (s.Exhausts engine depth detached places) :=
  decidable_of_iff ((∀ r ∈ s.run engine depth (places.map (Call.settle detached)), r.result.isSome) ∧
    (s.finish engine depth (places.map (Call.settle detached))).world.pending.isEmpty = true)
    (and_congr_right' List.isEmpty_iff)

/-- The lockers are sealed in turns, or one after the other. -/
theorem pair_agrees :
    let last := (pairWaits.finish (Locker.engine []) 2 ([0, 0, 0, 0].map (Call.settle true))).world
    let last' := (pairWaits.finish (Locker.engine []) 2 ([1, 1, 0, 0].map (Call.settle true))).world
    pairWaits.world.pending.length = 2 ∧
    (∀ kind id, last.entities.find? kind id = last'.entities.find? kind id) ∧
      (∀ lockKey, last.locks.lease? lockKey = last'.locks.lease? lockKey) ∧
      ∀ k, last.bus.log.filter (·.key = k) = last'.bus.log.filter (·.key = k) := by
  obtain ⟨hreturned, hfaults, hexecutor, htwo, hapart⟩ := pairWaits_apart
  have hcalls : ∀ c ∈ pairCalls, c.Obeys (Op.Allowed False) := by
    simp [pairCalls, Call.Obeys, Locker.sealing_obeys]
  refine ⟨htwo, ?_⟩
  exact schedules_agree (by decide) ⟨rfl, rfl, rfl⟩ (Locker.engine_obeys (List.forall_mem_nil _)) hcalls
    hreturned ⟨hfaults, hexecutor⟩ hapart (by decide +kernel) (by decide +kernel)

end System

end Workflow
