import Workflow.Proofs.Engine.Writing

/-!
# What commands keep to

Commands of transitions, processes and jobs that keep to some operations.
-/

namespace Workflow

/-- What commands may do: nothing to locks, and start transitions only if that is allowed. -/
def Op.Allowed (invokes : Prop) : Op → Prop
  | lock | unlock => False
  | invoke .. => invokes
  | _ => True

theorem Op.Allowed.invoking {op : Op} (h : op.Allowed False) : op.Allowed True := by
  cases op <;> trivial

theorem Program.All.mono {allowed allowed' : Op → Prop} (hallowed : ∀ op, allowed op → allowed' op) {α : Type}
    {p : Program α} (h : p.All allowed) : p.All allowed' := by
  induction p with
  | pure a => trivial
  | call op next ih => exact ⟨hallowed op h.1, fun reply => ih reply (h.2 reply)⟩

namespace Transition

def commands (t : Transition) : List Command :=
  t.sideEffects ++ t.callbacks ++ t.failureCallbacks

def Obeys (allowed : Op → Prop) (t : Transition) : Prop :=
  ∀ c ∈ t.commands, c.body.All allowed

variable {allowed : Op → Prop} {t : Transition} (h : t.Obeys allowed)

include h

theorem Obeys.sideEffects : ∀ c ∈ t.sideEffects, c.body.All allowed :=
  fun c hc => h c (List.mem_append_left _ (List.mem_append_left _ hc))

theorem Obeys.callbacks : ∀ c ∈ t.callbacks, c.body.All allowed :=
  fun c hc => h c (List.mem_append_left _ (List.mem_append_right _ hc))

theorem Obeys.failureCallbacks : ∀ c ∈ t.failureCallbacks, c.body.All allowed :=
  fun c hc => h c (List.mem_append_right _ hc)

end Transition

theorem Transition.Obeys.mono {allowed allowed' : Op → Prop} (hallowed : ∀ op, allowed op → allowed' op)
    {t : Transition} (h : t.Obeys allowed) : t.Obeys allowed' :=
  fun c hc => (h c hc).mono hallowed

def Process.Obeys (allowed : Op → Prop) (p : Process) : Prop :=
  ∀ t ∈ p.allTransitions, t.Obeys allowed

def Engine.Obeys (allowed : Op → Prop) (engine : Engine) : Prop :=
  ∀ p ∈ engine.processes, p.2.Obeys allowed

theorem Process.Obeys.mono {allowed allowed' : Op → Prop} (hallowed : ∀ op, allowed op → allowed' op)
    {p : Process} (h : p.Obeys allowed) : p.Obeys allowed' :=
  fun t ht => (h t ht).mono hallowed

theorem Engine.Obeys.mono {allowed allowed' : Op → Prop} (hallowed : ∀ op, allowed op → allowed' op)
    {engine : Engine} (h : engine.Obeys allowed) : engine.Obeys allowed' :=
  fun p hp => (h p hp).mono hallowed

/-- The commands of the job and of its transition keep to these operations. -/
structure Job.Obeys (allowed : Op → Prop) (job : Job) : Prop where
  steps : ∀ c ∈ job.steps, c.body.All allowed
  transition : ∀ n t root, job.continuation = .finish n t root → t.Obeys allowed

/-- The job is that of a transition in flight which keeps to these operations, and on one of these keys. -/
structure Job.Carries (allowed : Op → Prop) (keys : StateKey → Prop) (f : Flight) (job : Job) : Prop where
  flight : job.flight? = some f
  key : keys job.key
  steps : ∀ c ∈ job.steps, c.body.All allowed
  transition : ∀ n t root, job.continuation = .finish n t root → t.Obeys allowed
  root : ∀ n t p, job.continuation = .finish n t (some p) → p.Obeys allowed

theorem Job.finish_of_flight {job : Job} {f : Flight} (h : job.flight? = some f) :
    ∃ t root, job.continuation = .finish f.number t root ∧ f = ⟨f.number, job.key⟩ := by
  unfold flight? at h
  split at h
  · rename_i n t root hcont
    cases h
    exact ⟨t, root, hcont, rfl⟩
  · cases h

def EntityStore.Textual (s : EntityStore) (k : StateKey) : Prop :=
  ∃ e state, s.find? k.kind k.id = some e ∧ e.get? k.field = some (.str state)

theorem EntityStore.textual_iff {s : EntityStore} {k : StateKey} :
    s.Textual k ↔
      ((s.find? k.kind k.id).bind fun e => (e.get? k.field).bind Json.asString?).isSome = true := by
  simp only [Option.isSome_iff_exists, Option.bind_eq_some_iff]
  constructor
  · rintro ⟨e, state, he, hstate⟩
    exact ⟨state, e, he, _, hstate, rfl⟩
  · rintro ⟨state, e, he, value, hvalue, hstate⟩
    cases value with
    | str text => exact ⟨e, text, he, hvalue⟩
    | _ => cases hstate

instance (s : EntityStore) (k : StateKey) : Decidable (s.Textual k) :=
  decidable_of_iff _ EntityStore.textual_iff.symm

def Started.view (s : Started) : View :=
  ⟨s.key, s.memo⟩

end Workflow
