import Workflow.Proofs.Calls

/-!
# Sources of started transitions

A transition is chosen for what its view remembers, and only then its field is locked. The view of a bound
process goes on remembering what it read in an earlier call: what the store holds when the transition starts
is one of its sources, unless the bound process remembers a state that the store had left before the call.
-/

namespace Workflow

/-- The transition had the state that its view remembers among its sources, and the store held it or the
view was stale for this start. -/
def Moment.Sourced (stale : View → Nat → String → Prop) (m : Moment) : Prop :=
  ∀ s, m.entry = .started s → ∃ state ∈ s.transition.sources, s.view.Recalls state ∧
    (m.scene.entities.getField s.key = .ok (.str state) ∨ stale s.view s.number state)

def SourcedSince (base : List Moment) (stale : View → Nat → String → Prop) (w : World) : Prop :=
  ∃ moments, w.journal = moments ++ base ∧ ∀ m ∈ moments, m.Sourced stale

namespace SourcedSince

variable {base : List Moment} {stale : View → Nat → String → Prop} {w w' : World}

theorem recorded (h : SourcedSince base stale w) {e : Entry} (he : (Moment.mk e w'.toScene).Sourced stale)
    (hjournal : w'.journal = w.journal := by rfl) : SourcedSince base stale (w'.record e) := by
  obtain ⟨moments, heq, hall⟩ := h
  exact ⟨_, World.journal_record heq hjournal, List.forall_mem_cons.2 ⟨he, hall⟩⟩

end SourcedSince

/-- The custody that watches over starts. It has nothing to say about flights and errors. -/
def sourcing (engine : Engine) (base : List Moment) (stale : View → Nat → String → Prop) : Custody engine where
  holds _ := SourcedSince base stale
  keys _ := True
  excuse _ := True
  blamed _ := True
  invokes := True
  resolved := True
  stale := stale
  excused _ := .inr trivial
  lasting _ _ := trivial
  struck _ h := h
  remarked he h := h.recorded fun _ heq => by cases heq; cases he
  wrote _ h := h.recorded fun _ h => nomatch h
  removed _ _ h := h.recorded fun _ h => nomatch h
  emitted _ h := h.recorded fun _ h => nomatch h
  started {_ w} s _ hnumber h hchosen _ := by
    have hlock : SourcedSince base stale
        (w.lock (s.key.lockKey engine.config.lockPrefix) engine.config.lockTtl) :=
      h.recorded fun _ h => nomatch h
    refine ⟨trivial, hlock.recorded fun s' heq => ?_⟩
    cases heq
    obtain ⟨⟨state, hmem, hstate⟩, hfaithful⟩ := hchosen trivial
    exact ⟨state, hmem, hstate, hnumber ▸ hfaithful state hstate⟩
  landed h := h.recorded fun _ h => nomatch h
  unlocked _ h := h.recorded fun _ h => nomatch h
  queued _ _ _ h := h
  pooled _ _ _ h := h
  taken _ _ h := h
  switched _ h := h
  reported _ _ _ h := h.recorded fun _ h => nomatch h
  everywhere _ _ := trivial
  pardoned _ _ := trivial
  dropped _ _ _ _ h := h

/-! ## Runs -/

/-- The call is one of a bound process which remembers that state, the store had another value by then, and
the start is the first of the call. -/
def Report.Stale (r : Report) (v : View) (number : Nat) (state : String) : Prop :=
  ∃ i action user context b, r.call = .invoke i action user context ∧
    r.before.bound[i]? = some b ∧ b.view = v ∧ number = r.before.world.starts ∧
    r.before.world.entities.getField v.key ≠ .ok (.str state)

namespace System

variable {engine : Engine} {depth : Nat} {cs : List Call} {w : World}

/-- Jobs that wait and bound processes come with commands that leave locks alone. -/
structure Mannered (s : System) : Prop where
  jobs : ∀ job ∈ s.world.pending, ∃ f, job.Carries (Op.Allowed True) (fun _ => True) f
  processes : ∀ b ∈ s.bound, b.process.Obeys (Op.Allowed True)

theorem Mannered.tended {s : System} (h : s.Mannered) (stale : View → Nat → String → Prop) :
    (sourcing engine s.world.journal stale).Tended [] s :=
  have hsince : SourcedSince s.world.journal stale s.world :=
    ⟨[], rfl, fun _ h => absurd h List.not_mem_nil⟩
  ⟨⟨hsince, False.elim, h.jobs⟩, h.processes, fun _ _ => trivial, fun _ _ => .inr trivial⟩

theorem sourced_moments {r : Report} {stale : View → Nat → String → Prop}
    (h : SourcedSince r.before.world.journal stale r.after.world) : ∀ m ∈ r.moments, m.Sourced stale := by
  obtain ⟨moments, heq, hall⟩ := h
  rw [Report.moments_eq heq]
  exact hall

/--
In a run of bound processes and jobs whose commands leave locks alone, a transition that is started has the
state that its view remembers among its sources. The store holds that state as well, unless the start is the
first of a call of a bound process that remembered it, and the store held something else by then.
-/
theorem run_sources (hw : w.pending = []) (hengine : engine.Obeys (Op.Allowed True))
    (hcs : ∀ c ∈ cs, c.Obeys (Op.Allowed True) ∧ c.Resolves) :
    ∀ r ∈ (start w).run engine depth cs, ∀ m ∈ r.moments, m.Sourced r.Stale := by
  refine run_induction (J := Mannered) (fun s c hc hs => ?_) ⟨?_, nofun⟩
  · let stale := (s.report engine depth c).Stale
    have hleft := Custody.perform_left depth (hs.tended stale) hengine (hcs c hc).1
      (by cases c <;> trivial) (fun _ => (hcs c hc).2) ?_
    · refine ⟨?_, fun hsome => ?_⟩
      · obtain ⟨_, hsince⟩ := hleft.cut
        exact sourced_moments hsince
      · obtain ⟨_, htended⟩ := hleft.returned hsome
        exact ⟨htended.base.jobs, htended.processes⟩
    · intro _ i action user context b hcall hb state _
      by_cases hstored : s.world.entities.getField b.view.key = .ok (.str state)
      · exact .inl hstored
      · exact .inr ⟨i, action, user, context, b, hcall, hb, rfl, rfl, hstored⟩
  · rw [show (start w).world.toScene.pending = [] from hw]
    exact nofun

theorem locker_sources :
    ((start (Locker.world .queue)).finish (Locker.engine []) 2 (Locker.calls [])).world.starts = 2 ∧
      ∀ r ∈ (start (Locker.world .queue)).run (Locker.engine []) 2 (Locker.calls []),
        ∀ m ∈ r.moments, m.Sourced r.Stale := by
  refine ⟨by decide +kernel, ?_⟩
  exact run_sources rfl (Locker.engine_obeys (List.forall_mem_nil _)) fun c hc =>
    ⟨Locker.calls_obey (List.forall_mem_nil _) c hc, Locker.calls_resolve [] c hc⟩

end System

def Moment.fromSource (m : Moment) : Bool :=
  match m.entry with
  | .started s =>
    match m.scene.entities.getField s.key with
    | .ok (.str state) => s.transition.sources.contains state
    | _ => false
  | _ => true

/-- A bound process that is used again after a job has moved the field starts from elsewhere. -/
theorem System.run_not_fromSource :
    ¬ ∀ (engine : Engine) (depth : Nat) (w : World) (cs : List Call) (k : StateKey),
      engine.config.lockTtl ≠ 0 → w.Idle → w.faults = [] → engine.Obeys (fun _ => False) →
      (∀ c ∈ cs, c.Obeys (fun _ => False) ∧ c.Resolves ∧ c.On (· = k)) →
      ∀ r ∈ (start w).run engine depth cs, ∀ m ∈ r.moments, m.fromSource = true := by
  intro h
  refine absurd (h (Locker.engine []) 2 (Locker.world .queue) (Locker.calls []) Locker.field (by decide)
    ⟨rfl, rfl, rfl⟩ rfl (Locker.engine_obeys (List.forall_mem_nil _)) fun c hc => ?_) (by decide +kernel)
  refine ⟨Locker.calls_obey (List.forall_mem_nil _) c hc, Locker.calls_resolve [] c hc, ?_⟩
  revert c
  simp [Locker.calls, Call.On]

end Workflow
