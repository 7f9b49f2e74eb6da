import Workflow.Proofs.Courses
import Workflow.Proofs.Engine.Places

/-!
# Permissions along chains

The caller of an invocation goes with everything that comes of it: with the job, with what follows the job and
with the transitions that are gone on with. Each transition that starts stands at a place that is open to this
caller, and no other place was open for its action.
-/

namespace Workflow

/-- The transition was started for the caller, and stands at the one place that was open to the caller for its
action, on the entity that the view remembers. -/
def Started.Permitted (p : Process) (caller : Caller) (s : Started) : Prop :=
  s.context.user = some caller ∧ ∃ e, s.memo = some e ∧
    ∃ a, p.OpenAt caller s.key.field e a s.transition ∧
      ∀ a' t', t'.action = s.transition.action → p.OpenAt caller s.key.field e a' t' → a' = a

theorem Process.Picks.permitted {p : Process} {caller : Caller} {s : Started}
    (h : p.Picks s.context.user s.view s.transition) (hcaller : s.context.user = some caller) :
    s.Permitted p caller := by
  obtain ⟨e, hmemo, hlisting⟩ := h
  rw [hcaller] at hlisting
  obtain ⟨a, hopen, honly⟩ := Inquiry.openAt_of_listing rfl hlisting
  refine ⟨hcaller, e, hmemo, a, hopen, fun a' t' haction => honly a' t' ?_⟩
  simpa [Inquiry.wants] using haction

/-- Operations that start no transition. -/
def Op.Local : Op → Prop
  | invoke .. => False
  | _ => True

/-- The transitions since then were permitted, and jobs that wait go on for the caller in the process. -/
structure Permitting (p : Process) (caller : Caller) (base : List Moment) (w : World) : Prop where
  starts : ∃ new, w.journal = new ++ base ∧ ∀ m ∈ new, ∀ s, m.entry = .started s → s.Permitted p caller
  jobs : ∀ job ∈ w.pending, ∃ leg,
    job.Bears Op.Local (fun _ => True) (·.user = some caller) (· = some p) leg

namespace Permitting

variable {p : Process} {caller : Caller} {base : List Moment} {w w' : World} {e : Entry}

theorem recorded (h : Permitting p caller base w) (he : ∀ s, e = .started s → s.Permitted p caller)
    (hjournal : w'.journal = w.journal := by rfl) (hpending : w'.pending = w.pending := by rfl) :
    Permitting p caller base (w'.record e) := by
  obtain ⟨new, heq, hall⟩ := h.starts
  exact ⟨⟨_, World.journal_record heq hjournal, List.forall_mem_cons.2 ⟨he, hall⟩⟩, hpending ▸ h.jobs⟩

theorem noted (h : Permitting p caller base w) (he : ∀ s, e ≠ .started s := by rintro _ ⟨⟩)
    (hjournal : w'.journal = w.journal := by rfl) (hpending : w'.pending = w.pending := by rfl) :
    Permitting p caller base (w'.record e) :=
  h.recorded (fun s heq => absurd heq (he s)) hjournal hpending

theorem waits (h : Permitting p caller base w) {leg : Leg} {job : Job}
    (hjob : job.Bears Op.Local (fun _ => True) (·.user = some caller) (· = some p) leg)
    (hpending : w'.pending.Perm (job :: w.pending)) (hjournal : w'.journal = w.journal := by rfl) :
    Permitting p caller base w' := by
  refine ⟨hjournal ▸ h.starts, fun j hj => ?_⟩
  cases List.mem_cons.1 (hpending.mem_iff.1 hj) with
  | inl heq => exact ⟨leg, heq ▸ hjob⟩
  | inr hj => exact h.jobs j hj

end Permitting

/-- The course of what an invocation of the caller brings about. -/
def permitting (engine : Engine) (p : Process) (caller : Caller) (base : List Moment) : Course engine where
  holds _ := Permitting p caller base
  allows := Op.Local
  keys _ := True
  travels c := c.user = some caller
  roots := (· = some p)
  executors _ := True
  excuse _ := True
  runs := True
  refuses := True
  nests := False
  lasting _ _ := trivial
  excused _ := .inr trivial
  inserted _ _ _ h := h
  failing _ _ h := h
  resumed _ h := h
  varied _ := ⟨trivial, trivial⟩
  running _ := trivial
  rejecting _ := trivial
  executor _ := trivial
  struck _ h := ⟨h.starts, h.jobs⟩
  remarked he h := h.noted fun _ heq => by cases heq; cases he
  wrote _ h := h.noted
  removed _ _ h := h.noted
  switched _ _ h := ⟨h.starts, h.jobs⟩
  turnedAway _ _ h := h.noted
  started {_ w} s root _ _ hcaller hroot hpicks _ _ h := by
    have hlocked : Permitting p caller base
        (w.lock (s.key.lockKey engine.config.lockPrefix) engine.config.lockTtl) := h.noted
    refine hlocked.recorded fun s' heq => ?_
    cases heq
    exact (hpicks p hroot).permitted hcaller
  told _ _ _ h := h.noted
  landed h := h.noted
  unlocked {leg _ w} h := by
    have hunlocked : Permitting p caller base (w.unlock (leg.flight.key.lockKey engine.config.lockPrefix)) :=
      h.noted
    exact hunlocked.noted
  ended _ h := h
  queued {_ _ w} job hjob _ h := h.waits hjob (w.pending_queued job)
  pooled {_ _ w} job hjob _ h := h.waits hjob (w.pending_pooled job)
  reported _ _ _ _ _ h := h.noted
  abandoned _ _ _ _ _ h := h.noted
  acquired _ _ _ _ _ _ h := h.noted
  freed _ _ _ _ _ h := h.noted
  invoked := False.elim

theorem permitting_called (engine : Engine) (p : Process) (caller : Caller) (base : List Moment) :
    (permitting engine p caller base).Called where
  taken hperm h := by
    obtain ⟨leg, hjob⟩ := h.jobs _ (hperm.symm.mem_iff.1 (List.mem_cons_self ..))
    exact ⟨trivial, leg, hjob, h.starts,
      fun j hj => h.jobs j (hperm.symm.mem_iff.1 (List.mem_cons_of_mem _ hj))⟩
  dropped _ h := h

/-! ## Runs -/

/-- The call is one for the caller, on the process. -/
def Call.For (caller : Caller) (p : Process) : Call → Prop
  | .bind process _ => process = p
  | .invoke _ _ user _ => user = some caller
  | .change .. => False
  | .run _ | .runDetached _ => True

namespace System

variable {engine : Engine} {depth : Nat} {cs : List Call} {p : Process} {caller : Caller} {s : System}

/--
Let one caller invoke actions of a process, and let commands start nothing. Then each transition that is
started, by an invocation or by what comes of it, stands at the one place of the process that was open to the
caller for its action, on the entity on which it was chosen.
-/
theorem run_permitted (hpending : s.world.pending = []) (hbound : ∀ b ∈ s.bound, b.process = p)
    (hengine : engine.Obeys Op.Local) (hp : p.Obeys Op.Local) (hcs : ∀ c ∈ cs, c.For caller p) :
    ∀ r ∈ s.run engine depth cs, ∀ m ∈ r.moments, ∀ start, m.entry = .started start →
      start.Permitted p caller := by
  have hsuits (base) (c) (hc : c ∈ cs) : (permitting engine p caller base).Suits c := by
    cases c with
    | bind process key =>
        obtain rfl : process = p := hcs _ hc
        exact ⟨⟨hp, rfl⟩, trivial⟩
    | invoke i action user context => exact hcs _ hc
    | change i transition context => exact (hcs _ hc).elim
    | run place => trivial
    | runDetached place => trivial
  refine run_induction (J := fun s => (permitting engine p caller s.world.journal).Tended s)
    (fun s c hc hs => ?_) ?_
  · obtain ⟨⟨_, hholds⟩, htended⟩ :=
      Course.perform_left (permitting_called ..) hs hengine depth (hsuits _ c hc)
    obtain ⟨new, hjournal, hall⟩ := hholds.starts
    refine ⟨?_, fun hsome => ?_⟩
    · rw [Report.moments_eq (r := s.report engine depth c) hjournal]
      exact hall
    · obtain ⟨h, hprocesses, hkeys, hmemos⟩ := htended hsome
      exact ⟨⟨⟨[], rfl, List.forall_mem_nil _⟩, h.jobs⟩, hprocesses, hkeys, hmemos⟩
  · refine ⟨⟨⟨[], rfl, List.forall_mem_nil _⟩, ?_⟩, fun b hb => ?_, fun _ _ => trivial,
      fun _ _ => .inr trivial⟩
    · rw [hpending]
      exact List.forall_mem_nil _
    · rw [hbound b hb]
      exact ⟨hp, rfl⟩

/-- A locker that keepers may lock, and that is sealed by a process within the process. -/
def keeping : Process :=
  ⟨"locker", [], [.named "keeper" fun _ caller => caller.id == "keeper"],
    [⟨"lock", ["open"], .moves "locked" none (some "seal"), none, [], [], [], [], []⟩],
    [⟨"sealing", [], [], [⟨"seal", ["locked"], .moves "sealed" none none, none, [], [], [], [], []⟩], []⟩]⟩

def keeper : Caller := ⟨"keeper", []⟩

/-- The locker is locked for the keeper, and sealed by the job of the queue. -/
theorem keeper_permitted :
    ((start (Locker.world .queue)).finish (Locker.engine []) 3 [.bind keeping Locker.field,
      .invoke 0 "lock" (some keeper) .empty, .run 0]).world.starts = 2 ∧
    ∀ r ∈ (start (Locker.world .queue)).run (Locker.engine []) 3 [.bind keeping Locker.field,
        .invoke 0 "lock" (some keeper) .empty, .run 0],
      ∀ m ∈ r.moments, ∀ start, m.entry = .started start → start.Permitted keeping keeper := by
  refine ⟨by decide +kernel, run_permitted rfl (List.forall_mem_nil _)
    (Locker.engine_obeys (List.forall_mem_nil _)) ?_ ?_⟩
  · simp [keeping, Process.Obeys, Process.allTransitions, Process.allTransitionsIn, Transition.Obeys,
      Transition.commands]
  · simp [Call.For]

end System

end Workflow
