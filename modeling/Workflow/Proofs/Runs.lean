import Mathlib.Data.List.Perm.Basic
import Workflow.BoundProcess
import Workflow.Proofs.Engine.Starting

/-!
# Runs

A run is made of calls in any order, those of bound processes and those that run jobs. A bound process
is kept and used again, with what it remembers. A call that is cut off never comes back and ends the run.
-/

namespace Workflow

/-- The job at a place, where those of the queue come before those of the pool, and the world without it. -/
def World.takeJob (w : World) (place : Nat) : Option (Job × World) :=
  match w.queue[place]? with
  | some job => some (job, { w with queue := w.queue.eraseIdx place })
  | none =>
    w.pool[place - w.queue.length]?.map fun job =>
      (job, { w with pool := w.pool.eraseIdx (place - w.queue.length) })

theorem World.takeJob_some {w w' : World} {place : Nat} {job : Job} (h : w.takeJob place = some (job, w')) :
    ∃ queue pool, w.pending.Perm (job :: (queue ++ pool)) ∧ w' = { w with queue := queue, pool := pool } := by
  unfold takeJob at h
  split at h
  · rename_i job' hjob
    obtain ⟨hlt, rfl⟩ := List.getElem?_eq_some_iff.1 hjob
    cases h
    exact ⟨_, _, ((List.getElem_cons_eraseIdx_perm hlt).symm).append_right _, rfl⟩
  · obtain ⟨job', hjob, heq⟩ := Option.map_eq_some_iff.1 h
    obtain ⟨hlt, rfl⟩ := List.getElem?_eq_some_iff.1 hjob
    cases heq
    refine ⟨_, _, ((List.getElem_cons_eraseIdx_perm hlt).symm.append_left _).trans ?_, rfl⟩
    exact List.perm_middle

/-- All that there was to be seen so far, the latest first. -/
def World.scenes (w : World) : List Scene :=
  w.toScene :: w.journal.map Moment.scene

structure World.Idle (w : World) : Prop where
  pending : w.pending = []
  flights : w.flights = []
  journal : w.journal = []

/-- What is done from outside. -/
inductive Call
  /-- Binds a process to a field; the bound process gets the next number. -/
  | bind (process : Process) (key : StateKey)
  | invoke (bound : Nat) (action : String) (user : Option Caller) (context : Context)
  /-- Starts a transition outside of any process. -/
  | change (bound : Nat) (transition : Transition) (context : Context)
  | run (place : Nat)
  | runDetached (place : Nat)

namespace Call

/-- The commands that the call brings along keep to these operations. -/
def Obeys (allowed : Op → Prop) : Call → Prop
  | .bind process _ => process.Obeys allowed
  | .change _ transition _ => transition.Obeys allowed
  | _ => True

theorem Obeys.mono {allowed allowed' : Op → Prop} (hallowed : ∀ op, allowed op → allowed' op) {c : Call}
    (h : c.Obeys allowed) : c.Obeys allowed' := by
  cases c with
  | bind process key => exact Process.Obeys.mono hallowed h
  | change i t context => exact Transition.Obeys.mono hallowed h
  | _ => trivial

def Resolves : Call → Prop
  | .change .. => False
  | _ => True

def On (keys : StateKey → Prop) : Call → Prop
  | .bind _ key => keys key
  | _ => True

end Call

structure System where
  world : World
  bound : List BoundProcess

namespace System

def start (w : World) : System := ⟨w, []⟩

/-- Does something with a bound process. There is nothing to do with one that does not exist. -/
def onBound (s : System) (i : Nat) (m : BoundProcess → ViewM Unit) :
    Option (Except EngineError Unit) × System :=
  match s.bound[i]? with
  | none => (some (.ok ()), s)
  | some b =>
    match EngineM.outcome ((m b).run.run b.view) s.world with
    | (some (r, v), w) => (some r, ⟨w, s.bound.set i { b with view := v }⟩)
    | (none, w) => (none, { s with world := w })

/-- Does something with a job that waits. There is nothing to do where none waits. -/
def onJob (s : System) (place : Nat) (m : Job → EngineM (Except EngineError Unit)) :
    Option (Except EngineError Unit) × System :=
  match s.world.takeJob place with
  | none => (some (.ok ()), s)
  | some (job, w) =>
    let (r, w) := EngineM.outcome (m job) w
    (r, { s with world := w })

variable (engine : Engine) (depth : Nat)

def perform (s : System) : Call → Option (Except EngineError Unit) × System
  | .bind process key => (some (.ok ()), { s with bound := s.bound ++ [.fresh process key] })
  | .invoke i action user context =>
    s.onBound i fun b => b.process.invoke engine depth action user context
  | .change i transition context =>
    s.onBound i fun _ => Transition.execute engine depth transition context none
  | .run place => s.onJob place fun job => job.run engine (Transition.execute engine depth)
  | .runDetached place => s.onJob place fun job => do
    job.runDetached engine (Transition.execute engine depth)
    return .ok ()

end System

/-- A call of a run, with the systems before and after it. -/
structure Report where
  call : Call
  before : System
  result : Option (Except EngineError Unit)
  after : System

namespace Report

def moments (r : Report) : List Moment :=
  r.after.world.journal.take (r.after.world.journal.length - r.before.world.journal.length)

theorem moments_eq {r : Report} {new : List Moment}
    (h : r.after.world.journal = new ++ r.before.world.journal) : r.moments = new := by
  simp [moments, h]

theorem mem_moments {r : Report} {m : Moment} (h : r.before.world.journal <:+ r.after.world.journal)
    (hm : m ∈ r.after.world.journal) (hbefore : m ∉ r.before.world.journal) : m ∈ r.moments := by
  obtain ⟨new, heq⟩ := h
  rw [moments_eq heq.symm]
  rw [← heq] at hm
  exact (List.mem_append.1 hm).resolve_right hbefore

def Failed (r : Report) : Prop :=
  ∃ e, r.result = some (.error e)

/-- The job that the call took. -/
def job? (r : Report) : Option Job :=
  match r.call with
  | .run place | .runDetached place => (r.before.world.takeJob place).map (·.1)
  | _ => none

end Report

namespace System

variable (engine : Engine) (depth : Nat)

def report (s : System) (c : Call) : Report :=
  ⟨c, s, (s.perform engine depth c).1, (s.perform engine depth c).2⟩

/-- The reports of the calls up to the first that is cut off. -/
def run (s : System) : List Call → List Report
  | [] => []
  | c :: cs =>
    s.report engine depth c ::
      if (s.perform engine depth c).1.isSome then run (s.perform engine depth c).2 cs else []

def finish (s : System) : List Call → System
  | [] => s
  | c :: cs =>
    if (s.perform engine depth c).1.isSome then finish (s.perform engine depth c).2 cs
    else (s.perform engine depth c).2

theorem call_mem_of_mem_run {engine : Engine} {depth : Nat} {s : System} {cs : List Call} {r : Report}
    (h : r ∈ s.run engine depth cs) : r.call ∈ cs := by
  induction cs generalizing s with
  | nil => exact absurd h List.not_mem_nil
  | cons c cs ih =>
      unfold run at h
      cases List.mem_cons.1 h with
      | inl heq =>
          rw [heq]
          exact List.mem_cons_self ..
      | inr h =>
          split at h
          · exact List.mem_cons_of_mem _ (ih h)
          · exact absurd h List.not_mem_nil

/-! ## What calls come to -/

theorem onBound_cases (s : System) (i : Nat) (m : BoundProcess → ViewM Unit) :
    s.onBound i m = (some (.ok ()), s) ∨
      ∃ b, s.bound[i]? = some b ∧
        ((∃ r v w, EngineM.outcome ((m b).run.run b.view) s.world = (some (r, v), w) ∧
            s.onBound i m = (some r, ⟨w, s.bound.set i { b with view := v }⟩)) ∨
          ∃ w, EngineM.outcome ((m b).run.run b.view) s.world = (none, w) ∧
            s.onBound i m = (none, { s with world := w })) := by
  unfold onBound
  cases hb : s.bound[i]? with
  | none => exact .inl rfl
  | some b =>
      refine .inr ⟨b, rfl, ?_⟩
      dsimp only
      cases ho : EngineM.outcome ((m b).run.run b.view) s.world with
      | mk o w =>
          cases o with
          | none => exact .inr ⟨w, rfl, rfl⟩
          | some p => exact .inl ⟨p.1, p.2, w, rfl, rfl⟩

theorem onJob_cases (s : System) (place : Nat) (m : Job → EngineM (Except EngineError Unit)) :
    s.onJob place m = (some (.ok ()), s) ∨
      ∃ job w, s.world.takeJob place = some (job, w) ∧
        s.onJob place m =
          ((EngineM.outcome (m job) w).1, { s with world := (EngineM.outcome (m job) w).2 }) := by
  unfold onJob
  cases hjob : s.world.takeJob place with
  | none => exact .inl rfl
  | some p => exact .inr ⟨p.1, p.2, rfl, rfl⟩

/-! ## Invariants of runs -/

variable {engine depth} {cs : List Call}

theorem run_induction {J : System → Prop} {G : Report → Prop} {s : System}
    (hstep : ∀ s, ∀ c ∈ cs, J s → G (s.report engine depth c) ∧
      ((s.perform engine depth c).1.isSome → J (s.perform engine depth c).2))
    (hs : J s) : ∀ r ∈ s.run engine depth cs, G r := by
  induction cs generalizing s with
  | nil => exact fun r hr => absurd hr List.not_mem_nil
  | cons c cs ih =>
      intro r hr
      obtain ⟨hG, hJ⟩ := hstep s c (List.mem_cons_self ..) hs
      unfold run at hr
      cases List.mem_cons.1 hr with
      | inl heq => exact heq ▸ hG
      | inr hr =>
          split at hr
          · exact ih (fun s c hc => hstep s c (List.mem_cons_of_mem _ hc)) (hJ ‹_›) r hr
          · exact absurd hr List.not_mem_nil

variable (engine depth cs) in
/-- What holds at the end, when calls keep `J` as long as they return and a call that is cut off gives `K`. -/
theorem finish_induction {J : List Report → System → Prop} {K : System → Prop} (past : List Report)
    {s : System} (hJK : ∀ past s, J past s → K s)
    (hreturns : ∀ past s, ∀ c ∈ cs, J past s → (s.perform engine depth c).1.isSome →
      J (past ++ [s.report engine depth c]) (s.perform engine depth c).2)
    (hcut : ∀ past s, ∀ c ∈ cs, J past s → (s.perform engine depth c).1 = none →
      K (s.perform engine depth c).2)
    (hs : J past s) :
    K (s.finish engine depth cs) ∧ ((∀ r ∈ s.run engine depth cs, r.result.isSome) →
      J (past ++ s.run engine depth cs) (s.finish engine depth cs)) := by
  induction cs generalizing s past with
  | nil => exact ⟨hJK past s hs, fun _ => by simpa [run, finish] using hs⟩
  | cons c cs ih =>
      unfold run finish
      split
      · rename_i hsome
        obtain ⟨hK, hJ⟩ := ih _ (fun past s c hc => hreturns past s c (List.mem_cons_of_mem _ hc))
          (fun past s c hc => hcut past s c (List.mem_cons_of_mem _ hc))
          (hreturns past s c (List.mem_cons_self ..) hs hsome)
        refine ⟨hK, fun hall => ?_⟩
        rw [List.append_cons]
        exact hJ fun r hr => hall r (List.mem_cons_of_mem _ hr)
      · rename_i hnone
        refine ⟨hcut past s c (List.mem_cons_self ..) hs (by simpa using hnone), fun hall => ?_⟩
        exact absurd (hall _ (List.mem_cons_self ..)) hnone

/-- What each call that returns keeps is there at the end of a run in which all return. -/
theorem finish_keeps {J : System → Prop} {s : System}
    (hstep : ∀ s, ∀ c ∈ cs, J s → (s.perform engine depth c).1.isSome → J (s.perform engine depth c).2)
    (hs : J s) (hreturned : ∀ r ∈ s.run engine depth cs, r.result.isSome) :
    J (s.finish engine depth cs) :=
  (finish_induction engine depth cs [] (J := fun _ => J) (K := fun _ => True) (fun _ _ _ => trivial)
    (fun _ => hstep) (fun _ _ _ _ _ _ => trivial) hs).2 hreturned

end System

/-! ## A locker

A locker that can be locked once, for runs to look at.
-/

namespace Locker

def field : StateKey := ⟨"locker", "1", "state"⟩

def world (executor : Executor) : World :=
  { World.start executor (.new 16) with entities := ⟨[⟨"locker", "1", [("state", .str "open")]⟩]⟩ }

def process (sideEffects : List Command) : Process :=
  ⟨"locker", [], [], [⟨"lock", ["open"], .moves "locked" none none, none, [], [], sideEffects, [], []⟩], []⟩

theorem process_obeys {allowed : Op → Prop} {sideEffects : List Command}
    (h : ∀ c ∈ sideEffects, c.body.All allowed) : (process sideEffects).Obeys allowed := by
  simpa [process, Process.Obeys, Process.allTransitions, Process.allTransitionsIn, Transition.Obeys,
    Transition.commands] using h

def engine (sideEffects : List Command) : Engine :=
  ⟨.standard, [("locker", process sideEffects)]⟩

theorem engine_obeys {allowed : Op → Prop} {sideEffects : List Command}
    (h : ∀ c ∈ sideEffects, c.body.All allowed) : (engine sideEffects).Obeys allowed := by
  simp [engine, Engine.Obeys, process_obeys h]

/-- The locker is locked, and the bound process is used once more when the job is done. -/
def calls (sideEffects : List Command) : List Call :=
  [.bind (process sideEffects) field, .invoke 0 "lock" none .empty, .run 0, .invoke 0 "lock" none .empty]

theorem calls_obey {allowed : Op → Prop} {sideEffects : List Command}
    (h : ∀ c ∈ sideEffects, c.body.All allowed) : ∀ c ∈ calls sideEffects, c.Obeys allowed := by
  simp [calls, Call.Obeys, process_obeys h]

theorem calls_resolve (sideEffects : List Command) : ∀ c ∈ calls sideEffects, c.Resolves := by
  simp [calls, Call.Resolves]

/-- A locker that is sealed as soon as it is locked. -/
def sealing : Process :=
  ⟨"locker", [], [],
    [⟨"lock", ["open"], .moves "locked" none (some "seal"), none, [], [], [], [], []⟩,
      ⟨"seal", ["locked"], .moves "sealed" (some "sealing") none, none, [], [],
        [⟨"stamp", .call (.setField "stamp" (.str "red")) fun _ => .pure (.ok ())⟩], [], []⟩], []⟩

theorem sealing_obeys : sealing.Obeys (Op.Allowed False) := by
  simp [sealing, Process.Obeys, Process.allTransitions, Process.allTransitionsIn, Transition.Obeys,
    Transition.commands, Program.All, Op.Allowed]

end Locker

end Workflow
