import Workflow.Proofs.Engine.Actions
import Workflow.Proofs.Watches

/-!
# Frames of calls

A call on a field changes nothing but this field and its lock, as long as commands leave them alone. It does not
even change the field where only actions are started, unless one of them goes wrong and has a failed state.
-/

namespace Workflow

namespace Report

/-- The field that the call is on. -/
def key? (r : Report) : Option StateKey :=
  match r.call with
  | .bind .. => none
  | .invoke .. | .change .. => r.bound?.map (·.view.key)
  | .run _ | .runDetached _ => r.job?.map (·.key)

/-- The commands of all transitions that the call may come to keep to these operations. -/
def Obeys (allowed : Op → Prop) (r : Report) : Prop :=
  match r.call with
  | .bind .. => True
  | .invoke .. => ∀ b, r.bound? = some b → b.process.Obeys allowed
  | .change _ t _ => t.Obeys allowed
  | .run _ | .runDetached _ => ∀ job, r.job? = some job →
    job.Obeys allowed ∧ ∀ n t p, job.continuation = .finish n t (some p) → p.Obeys allowed

/-- The transitions that the call started, and the one whose job it ran. -/
def transitions (r : Report) : List Transition :=
  r.moments.filterMap (·.entry.starts?) ++ (r.job?.bind Job.transition?).toList

theorem mem_transitions_of_began {r : Report} {t : Transition}
    (h : r.before.world.Began t r.after.world) : t ∈ r.transitions := by
  obtain ⟨new, hnew, m, hm, hstarts⟩ := h
  rw [transitions, moments_eq hnew]
  exact List.mem_append_left _ (List.mem_filterMap.2 ⟨m, hm, hstarts⟩)

theorem mem_transitions_of_job {r : Report} {job : Job} {t : Transition} (hjob : r.job? = some job)
    (ht : job.transition? = some t) : t ∈ r.transitions := by
  refine List.mem_append_right _ ?_
  simp [hjob, ht]

/-- Where only actions are started, those in question are among them. -/
theorem spared_of_actions {r : Report} {φ : Transition → Prop} (hactions : ∀ t ∈ r.transitions, t.isAction = true)
    (h : r.before.world.Spared φ r.after.world) :
    r.after.world.entities = r.before.world.entities ∨ ∃ t ∈ r.transitions, φ t := by
  refine h.imp_right fun ⟨t, hbegan, ht⟩ => ?_
  have hmem := mem_transitions_of_began hbegan
  exact ⟨t, hmem, ht (hactions t hmem)⟩

end Report

namespace System

variable (engine : Engine) (depth : Nat)

/-- The action that the call starts, or whose job it runs, if the job is refused or one of its commands fails. -/
def setback? (s : System) : Call → Option Transition
  | .bind .. => none
  | .invoke i action user context =>
    s.bound[i]?.bind fun b => (b.process.offer engine action (context.withUser user)).setback? engine
      (Transition.execute engine (depth - 1)) b.view s.world
  | .change i t context =>
    s.bound[i]?.bind fun b => (t.offer engine context none).setback? engine
      (Transition.execute engine (depth - 1)) b.view s.world
  | .run place | .runDetached place =>
    (s.world.takeJob place).bind fun (job, w) => job.setback? engine (Transition.execute engine depth) .inline w

variable {engine depth} {s : System} {P : World → Prop}

theorem onBound_world {i : Nat} {b : BoundProcess} {m : BoundProcess → ViewM Unit} (hb : s.bound[i]? = some b)
    (hm : Meets (fun s' => s' = (b.view, s.world)) (m b) (fun _ s' => P s'.2) ⟨fun _ s' => P s'.2, P⟩) :
    P (s.onBound i m).2.world := by
  have hends := hm b.view s.world rfl
  unfold onBound
  rw [hb]
  dsimp only
  cases ho : EngineM.outcome ((m b).run.run b.view) s.world with
  | mk o w =>
      match o with
      | none => exact hends.2 w ho
      | some (.ok _, v) => exact hends.1 _ w ho
      | some (.error _, v) => exact hends.1 _ w ho

theorem onJob_world {place : Nat} {job : Job} {w : World} {m : Job → EngineM (Except EngineError Unit)}
    (hjob : s.world.takeJob place = some (job, w))
    (hm : Meets (fun w' => w' = w) (m job) (fun _ => P) (.only P)) : P (s.onJob place m).2.world := by
  have hends := hm w rfl
  unfold onJob
  rw [hjob]
  dsimp only
  cases ho : EngineM.outcome (m job) w with
  | mk o w' =>
      cases o with
      | none => exact hends.2 w' ho
      | some r => exact hends.1 r w' ho

theorem takeJob_of_key {place : Nat} {K : StateKey}
    (hkey : (((s.world.takeJob place).map (·.1)).map (·.key)) = some K) :
    ∃ job w, s.world.takeJob place = some (job, w) ∧ (s.world.takeJob place).map (·.1) = some job ∧
      job.key = K := by
  obtain ⟨job, hjob, hkey⟩ := Option.map_eq_some_iff.1 hkey
  obtain ⟨⟨_, w⟩, htake, rfl⟩ := Option.map_eq_some_iff.1 hjob
  exact ⟨_, w, htake, hjob, hkey⟩

section

variable {place : Nat} {job : Job} {w : World} {m : Job → EngineM (Except EngineError Unit)}
  (htake : s.world.takeJob place = some (job, w))

include htake

theorem onJob_framed
    (hjob : job.Obeys Op.Harmless ∧ ∀ n t p, job.continuation = .finish n t (some p) → p.Obeys Op.Harmless)
    (hm : ∀ I : Watch engine, I.Carries job → Meets I.Base (m job) (fun _ => I.Base) (.only I.holds)) :
    s.world.Framed engine.config.lockPrefix job.key (s.onJob place m).2.world := by
  obtain ⟨queue, pool, hperm, rfl⟩ := World.takeJob_some htake
  have hcarries : (framing engine job.key s.world).Carries job :=
    ⟨rfl, hjob.1.steps, hjob.1.transition, hjob.2⟩
  refine onJob_world htake ((hm _ hcarries).mono ?_ (fun _ _ h => h.holds) (fun _ _ h => h) fun _ h => h)
  rintro _ rfl
  exact framing.base (.taken hperm)

theorem onJob_spares (hactions : ∀ t, job.transition? = some t → t.isAction = true)
    (hm : job.Tame (job.fails engine (Transition.execute engine depth) w) →
      Meets (fun w' => w' = w) (m job) (fun _ w' => w'.entities = w.entities)
        (.only (·.entities = w.entities))) :
    (s.onJob place m).2.world.entities = s.world.entities ∨
      ∃ t, job.transition? = some t ∧ t.failed.isSome ∧ s.setback? engine depth (.run place) = some t := by
  rcases job.tame_or_setback engine (Transition.execute engine depth) .inline w hactions with
    htame | ⟨t, ht, hfailed, hset⟩
  · obtain ⟨queue, pool, -, rfl⟩ := World.takeJob_some htake
    exact .inl (onJob_world htake (hm htame))
  · exact .inr ⟨t, ht, hfailed, by rwa [setback?, htake]⟩

end

variable {c : Call} {K : StateKey} (hkey : (s.report engine depth c).key? = some K)
  (hobeys : (s.report engine depth c).Obeys Op.Harmless)

include hkey hobeys

/-- All that is not of the field stays as it is. -/
theorem perform_framed : s.world.Framed engine.config.lockPrefix K (s.perform engine depth c).2.world := by
  cases c with
  | bind process key => cases hkey
  | invoke i action user context =>
      obtain ⟨b, hb, rfl⟩ := Option.map_eq_some_iff.1 hkey
      have hinvoked := Watch.invokeWith_meets (I := framing engine b.view.key s.world)
        (Watch.execute_minds depth) rfl (hobeys b hb) action (context.withUser user)
      exact onBound_world hb (hinvoked.mono (fun _ => framing.eye rfl) (fun _ _ h => h.base.holds)
        (fun _ _ h => h.base.holds) fun _ h => h)
  | change i t context =>
      obtain ⟨b, hb, rfl⟩ := Option.map_eq_some_iff.1 hkey
      have hstart : (framing engine b.view.key s.world).Minds (Transition.execute engine depth) :=
        Watch.execute_minds depth
      have hstarted : Meets _ (Transition.execute engine depth t context none) _ _ :=
        hstart context rfl hobeys nofun
      exact onBound_world hb (hstarted.mono (fun _ => framing.eye rfl) (fun _ _ h => h.base.holds)
        (fun _ _ h => h.base.holds) fun _ h => h)
  | run place =>
      obtain ⟨job, w, htake, hjob, rfl⟩ := takeJob_of_key (s := s) hkey
      exact onJob_framed htake (hobeys job hjob) fun I hcarries => Watch.job_meets (Watch.execute_minds depth) hcarries
  | runDetached place =>
      obtain ⟨job, w, htake, hjob, rfl⟩ := takeJob_of_key (s := s) hkey
      refine onJob_framed htake (hobeys job hjob) fun I hcarries => ?_
      exact .bind (m := EngineM) (Watch.runDetached_meets (Watch.execute_minds depth) hcarries) fun _ =>
        .pure fun _ h => h

/-- Where only actions are started, nothing is written unless one is set back that has a failed state. -/
theorem perform_spares (hactions : ∀ t ∈ (s.report engine depth c).transitions, t.isAction = true) :
    (s.perform engine depth c).2.world.entities = s.world.entities ∨
      ∃ t ∈ (s.report engine depth c).transitions, t.failed.isSome ∧ s.setback? engine depth c = some t := by
  have hstarted := Report.spared_of_actions (φ := fun t => t.failed.isSome ∧ s.setback? engine depth c = some t)
    hactions
  cases c with
  | bind process key => cases hkey
  | invoke i action user context =>
      obtain ⟨b, hb, rfl⟩ := Option.map_eq_some_iff.1 hkey
      have hbound : s.bound[i]? = some b := hb
      refine hstarted (onBound_world hb (Process.invokeWith_spares (s := (b.view, s.world)) (hobeys b hb) ?_))
      intro t ht hfailed
      exact ⟨hfailed, by rwa [setback?, hbound]⟩
  | change i t context =>
      obtain ⟨b, hb, rfl⟩ := Option.map_eq_some_iff.1 hkey
      have hbound : s.bound[i]? = some b := hb
      have huntouched : Untouched b.view.key s.world (b.view, s.world) := ⟨⟨rfl, rfl⟩, List.suffix_rfl⟩
      refine hstarted (onBound_world hb (Transition.execute_spares hobeys nofun huntouched ?_))
      exact fun ht hfailed => ⟨hfailed, by rwa [setback?, hbound]⟩
  | run place =>
      obtain ⟨job, w, htake, hjob, rfl⟩ := takeJob_of_key (s := s) hkey
      have hmem (t) (ht : job.transition? = some t) : t ∈ (s.report engine depth (.run place)).transitions :=
        Report.mem_transitions_of_job hjob ht
      refine (onJob_spares htake (fun t ht => hactions t (hmem t ht)) (Job.run_holds (hobeys job hjob).1)).imp_right
        fun ⟨t, ht, hset⟩ => ⟨t, hmem t ht, hset⟩
  | runDetached place =>
      obtain ⟨job, w, htake, hjob, rfl⟩ := takeJob_of_key (s := s) hkey
      have hmem (t) (ht : job.transition? = some t) :
          t ∈ (s.report engine depth (.runDetached place)).transitions := Report.mem_transitions_of_job hjob ht
      refine (onJob_spares htake (fun t ht => hactions t (hmem t ht)) fun htame => ?_).imp_right
        fun ⟨t, ht, hset⟩ => ⟨t, hmem t ht, hset⟩
      exact .bind (m := EngineM) (Job.runDetached_holds (hobeys job hjob).1 htame) fun _ => .pure fun _ h => h

omit hkey hobeys in
/--
Let a call be on the field `K`, and let the commands that it may come to write no field and leave locks alone.
Whatever store calls fail, whatever the executor does and however the call ends: every other entity and every
other field of this one are as before, the same entities are stored, and the locks of other lock keys are as
before. If all transitions that the call starts or goes on with are actions, no entity is changed at all, unless
one of them, which has a failed state, was refused by the executor or failed.
-/
theorem call_frames (hkey : (s.report engine depth c).key? = some K)
    (hobeys : (s.report engine depth c).Obeys Op.Harmless) :
    (∀ kind id, ¬ (K.kind = kind ∧ K.id = id) →
      (s.perform engine depth c).2.world.entities.find? kind id = s.world.entities.find? kind id) ∧
    (∀ k, k ≠ K →
      (s.perform engine depth c).2.world.entities.getField k = s.world.entities.getField k) ∧
    (∀ kind id,
      (s.perform engine depth c).2.world.entities.contains kind id = s.world.entities.contains kind id) ∧
    (∀ lockKey, K.lockKey engine.config.lockPrefix ≠ lockKey →
      (s.perform engine depth c).2.world.locks.lease? lockKey = s.world.locks.lease? lockKey) ∧
    ((∀ t ∈ (s.report engine depth c).transitions, t.isAction = true) →
      (s.perform engine depth c).2.world.entities = s.world.entities ∨
        ∃ t ∈ (s.report engine depth c).transitions, t.failed.isSome ∧ s.setback? engine depth c = some t) := by
  have hframed := perform_framed hkey hobeys
  refine ⟨fun kind id hother => ?_, hframed.fields, hframed.stored, fun lockKey hother => ?_,
    perform_spares hkey hobeys⟩
  · exact hframed.entities kind id fun k hk => hk ▸ hother
  · exact hframed.leases lockKey fun k hk => hk ▸ hother

end System

/-! ## A locker that is inspected -/

namespace Locker

/-- The inspection leaves the locker open, unless something is found. -/
def inspecting : Process :=
  ⟨"locker", [], [],
    [⟨"inspect", ["open"], .keeps, some "broken", [], [], [⟨"look", .pure (.error "dented")⟩], [], []⟩], []⟩

theorem inspecting_obeys : inspecting.Obeys Op.Harmless := by
  simp [inspecting, Process.Obeys, Process.allTransitions, Process.allTransitionsIn, Transition.Obeys,
    Transition.commands, Program.All]

def inspected : System :=
  ⟨world .inline, [.fresh inspecting field]⟩

def inspection : Call :=
  .invoke 0 "inspect" none .empty

theorem inspected_obeys : (inspected.report (engine []) 2 inspection).Obeys Op.Harmless := by
  rintro _ ⟨⟩
  exact inspecting_obeys

theorem inspected_actions :
    ∀ t ∈ (inspected.report (engine []) 2 inspection).transitions, t.isAction = true := by
  decide +kernel

/-- The inspection fails: the state is written, and nothing else. -/
theorem inspected_frames :
    (inspected.perform (engine []) 2 inspection).2.world.entities.getField field = .ok (.str "broken") ∧
    (∀ k, k ≠ field → (inspected.perform (engine []) 2 inspection).2.world.entities.getField k =
      inspected.world.entities.getField k) ∧
    ∃ t ∈ (inspected.report (engine []) 2 inspection).transitions, t.failed.isSome ∧
      inspected.setback? (engine []) 2 inspection = some t := by
  have hbroken : (inspected.perform (engine []) 2 inspection).2.world.entities.getField field =
      .ok (.str "broken") := by rfl
  obtain ⟨-, hfields, -, -, hactions⟩ := System.call_frames (K := field) rfl inspected_obeys
  refine ⟨hbroken, hfields, (hactions inspected_actions).resolve_left fun hsame => ?_⟩
  have hopen : inspected.world.entities.getField field = .ok (.str "open") := rfl
  rw [hsame, hopen] at hbroken
  simp at hbroken

end Locker

end Workflow
