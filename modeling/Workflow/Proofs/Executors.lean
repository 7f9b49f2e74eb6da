import Workflow.Proofs.Engine.Deferring
import Workflow.Proofs.Engine.Serving
import Workflow.Proofs.Runs

/-!
# The queue and the inline executor

Under the queue a transition leaves its job behind where the inline executor runs it. When no fault is planned
and commands start nothing, the two agree: once the jobs of the queue have been run, in their order and with
those that come up meanwhile, everything is as the inline executor leaves it, what happened included.
-/

namespace Workflow

/-! ## What waits -/

/-- With the jobs that start transitions by `later`, the queue of `w₁` leads to `w'`. -/
def Settles (engine : Engine) (later : Start) (depth : Nat) (w' w₁ : World) : Prop :=
  ∀ detached bound, depth < bound →
    (EngineM.drainQueue engine later detached bound).outcome w₁ = (some (), w'.under .queue)

theorem Settles.rest {engine : Engine} {later : Start} {depth : Nat} {w : World} (h : w.queue = []) :
    Settles engine later depth w (w.under .queue) := fun detached bound hbound => by
  obtain ⟨bound, rfl⟩ := Nat.exists_eq_add_one_of_ne_zero (Nat.ne_zero_of_lt hbound)
  exact EngineM.drainQueue_nil h

/-- What is left under the queue in place of a world of the inline executor. -/
structure Deferred (engine : Engine) (later : Start) (depth : Nat) (k : StateKey)
    (r : Except EngineError Unit) (w' : World) (r₁ : Except EngineError Unit) (w₁ : World) : Prop where
  result : r₁ = r
  calm : w'.Calm k
  sound : w₁.Sound k
  settles : Settles engine later depth w' w₁
  refused : r = .ok () ∨ w₁ = w'.under .queue

variable {engine : Engine} {later start start' : Start} {depth : Nat} {k : StateKey}
  {r : Except EngineError Unit} {w : World}

theorem World.Calm.deferred (h : w.Calm k) : Deferred engine later depth k r w r (w.under .queue) where
  result := rfl
  calm := h
  sound := ⟨h.faults, h.entity⟩
  settles := .rest h.queue
  refused := .inr rfl

/-- A start that defers to the queue what another does inline. -/
def Postpones (engine : Engine) (later : Start) (depth : Nat) (start start' : Start) : Prop :=
  ∀ t context root v, t.Obeys (·.isOwn = true) → (∀ p, root = some p → p.Obeys (·.isOwn = true)) →
    Defers (World.Calm v.key) ((start t context root).run.run v) ((start' t context root).run.run v)
      fun p w' q w₁ => p.2.key = v.key ∧ q.2.key = v.key ∧ Deferred engine later depth v.key p.1 w' q.1 w₁

section

variable (hstart : Postpones engine later depth start later)

include hstart

theorem chain_defers (t : Transition) (next : String) (context : Context) {root : Option Process}
    (hroot : ∀ p, root = some p → p.Obeys (·.isOwn = true)) (v : View) :
    Defers (fun w => CalmAt k (v, w)) ((t.chain engine start next context root).run.run v)
      ((t.chain engine later next context root).run.run v)
      fun p w' q w₁ => p.1 = .ok () ∧ Deferred engine later depth k p.1 w' q.1 w₁ := by
  unfold Transition.chain
  cases root with
  | none =>
      exact .sameView (t.report_impartial (I := .under engine .queue) _) (t.report_meets CalmAt.working.toWriting _)
        fun _ _ _ h => ⟨rfl, h.calm.deferred⟩
  | some p =>
      rw [ViewM.run_bindKey, ViewM.run_bindKey, ViewM.run_bindEngine, ViewM.run_bindEngine]
      refine .andThen (.onFresh ?_ : Defers _ _ _ (Deferred engine later depth k)) ?_
      · refine .mono (R := fun p w q w₁ => Deferred engine later depth k p.1 w q.1 w₁)
          (.bindView (v := .fresh v.key) (p.candidates_impartial _)
            (p.candidates_meets CalmAt.working.reading engine _ fun _ _ _ h => h) (fun ts v => ?_) ?_)
          (fun w h => ⟨h.onKey, h.calm⟩) fun _ _ _ _ h => h
        · split
          · rename_i u
            intro w hw
            obtain rfl : v.key = k := hw.1.onKey
            obtain ⟨hmem, -⟩ := hw.2 u (List.mem_singleton_self u)
            exact (hstart u context.withoutFailure (some p) v (hroot p rfl u hmem) hroot).mono
              (fun _ h => h) (fun _ _ _ _ h => h.2.2) w hw.1.calm
          · intro w hw
            exact Defers.sameView (P := CalmAt k) (t.report_impartial (I := .under engine .queue) _)
              (t.report_meets CalmAt.working.toWriting _)
              (fun _ _ _ h => h.calm.deferred) w hw.1
        · exact fun _ _ _ h => h.calm.deferred
      · -- The error of a start is reported on both sides, where nothing is left to do.
        rintro r w r₁ w₁ h p w' ho
        obtain rfl := h.result
        cases r₁ with
        | ok _ =>
            cases ho
            exact ⟨_, w₁, rfl, rfl, h⟩
        | error e =>
            cases ho
            obtain rfl := h.refused.resolve_left nofun
            exact ⟨_, _, rfl, rfl, h.calm.next.deferred⟩

theorem complete_defers {t : Transition} (ht : t.Obeys (·.isOwn = true)) (context : Context)
    {root : Option Process} (hroot : ∀ p, root = some p → p.Obeys (·.isOwn = true)) (number : Option Nat)
    (v : View) :
    Defers (fun w => CalmAt k (v, w)) ((t.complete engine start context root number).run.run v)
      ((t.complete engine later context root number).run.run v)
      fun p w' q w₁ => p.1 = .ok () ∧ Deferred engine later depth k p.1 w' q.1 w₁ := by
  refine .bindView (E := fun _ _ => False)
    (t.succeed_alike (Likeness.under_numbers number) (fun _ => Op.isInvoke_of_isOwn) context ht)
    (t.succeed_meets CalmAt.working.toWriting CalmAt.takes (CalmAt.working.release_meets CalmAt.takes t number)
      CalmAt.working.toWriting CalmAt.working.run_meets ht.callbacks context) (fun context v => ?_)
    fun _ _ _ h => h.elim
  split
  · exact chain_defers hstart t _ context hroot v
  · exact .pure fun _ h => ⟨rfl, h.calm.deferred⟩

theorem job_defers {job : Job} {f : Flight} (hjob : job.Carries (·.isOwn = true) (fun _ => True) f) :
    Defers (World.Calm job.key) (job.run engine start) (job.run engine later)
      fun r w' r₁ w₁ => r = .ok () ∧ Deferred engine later depth job.key r w' r₁ w₁ := by
  unfold Job.run
  refine .bind (M := fun _ => World.Calm job.key)
    (Command.runAll_alike (fun _ => Op.isInvoke_of_isOwn) job.steps hjob.steps job.context (.fresh job.key)
      trivial) ?_ fun r => ?_
  · have hsteps : Meets (CalmAt job.key) (Command.runAll engine start job.steps) (fun _ => CalmAt job.key)
        (.only fun _ => True) :=
      Command.runAll_meets CalmAt.working.toViewing CalmAt.working.run_meets job.steps hjob.steps
    exact Meets.mono (m := EngineM) (hsteps job.context (.fresh job.key)) (fun w h => ⟨rfl, h⟩)
      (fun _ _ h => h.calm) (fun _ _ h => h) fun _ h => h
  obtain ⟨⟨failure, context⟩, _⟩ := r
  obtain ⟨t, root, hcont, -⟩ := Job.finish_of_flight hjob.flight
  have ht := hjob.transition _ t root hcont
  have hroot (p) (hp : root = some p) := hjob.root _ t p (hp ▸ hcont)
  rw [hcont]
  cases failure with
  | none =>
      exact .onFresh <| (complete_defers hstart ht context hroot _ (.fresh job.key)).mono
        (fun _ h => ⟨rfl, h⟩) fun _ _ _ _ h => h
  | some failure =>
      refine .onFresh <| Defers.mono (.sameView (P := CalmAt job.key) (t.fail_alike (Likeness.under_numbers _)
        (fun _ => Op.isInvoke_of_isOwn) failure context ht)
        (t.fail_meets CalmAt.working.toWriting CalmAt.takes (CalmAt.working.release_meets CalmAt.takes t _)
          CalmAt.working.toWriting CalmAt.working.run_meets ht.failureCallbacks failure context) ?_)
        (fun _ h => ⟨rfl, h⟩) fun _ _ _ _ h => h
      exact fun _ _ _ h => ⟨rfl, h.calm.deferred⟩

/-- A job that is handed over is run inline, or waits to be run. -/
theorem dispatch_defers {job : Job} {f : Flight} (hjob : job.Carries (·.isOwn = true) (fun _ => True) f) :
    Defers (World.Calm job.key) (job.dispatch engine start) (job.dispatch engine start')
      fun r w' r₁ w₁ => r = .ok () ∧ r₁ = .ok () ∧ w'.Calm job.key ∧ w₁.Sound job.key ∧
        Settles engine later (depth + 1) w' w₁ := by
  intro w hw a w' ho
  unfold Job.dispatch at ho
  rw [EngineM.outcome_bind_some (EngineM.outcome_get w), hw.inline] at ho
  cases hrun : (job.run engine start).outcome w with
  | mk o w₁ =>
      unfold Job.handTo at ho
      cases o with
      | none =>
          rw [EngineM.outcome_bind_none hrun] at ho
          cases ho
      | some r =>
          rw [EngineM.outcome_bind_some hrun] at ho
          obtain ⟨r₁, w₂, hlater, rfl, h⟩ := job_defers hstart hjob w hw r w₁ hrun
          obtain rfl := h.result
          cases ho
          refine ⟨_, _, rfl, rfl, rfl, h.calm, ⟨hw.faults, hw.entity⟩, fun detached bound hbound => ?_⟩
          obtain ⟨bound, rfl⟩ := Nat.exists_eq_add_one_of_ne_zero (Nat.ne_zero_of_lt hbound)
          have hqueue : w.queue ++ [job] = job :: [] := by rw [hw.queue, List.nil_append]
          have htaken : { w with executor := .queue, queue := [] } = w.under .queue := by
            rw [World.under, ← hw.queue]
          -- The first round of the queue does what the job has done inline, and leaves what that left.
          rw [EngineM.drainQueue_cons hqueue (htaken ▸ hlater)]
          exact h.settles detached bound (Nat.lt_of_succ_lt_succ hbound)

theorem handOver_defers (start' : Start) {t : Transition} (ht : t.Obeys (·.isOwn = true)) (context : Context)
    {root : Option Process} (hroot : ∀ p, root = some p → p.Obeys (·.isOwn = true)) (number : Nat)
    (previous : Option String) (v : View) :
    Defers (World.Calm v.key) ((t.handOver engine start context root number previous).run.run v)
      ((t.handOver engine start' context root number previous).run.run v)
      fun p w' q w₁ => p.2.key = v.key ∧ q.2.key = v.key ∧
        Deferred engine later (depth + 1) v.key p.1 w' q.1 w₁ := by
  unfold Transition.handOver
  rw [ViewM.run_bindKey, ViewM.run_bindKey, ViewM.run_bindEngine, ViewM.run_bindEngine]
  let job : Job := ⟨v.key, t.action, context, t.sideEffects, .finish number t root⟩
  have hjob : job.Carries (·.isOwn = true) (fun _ => True) ⟨number, v.key⟩ :=
    ⟨rfl, trivial, ht.sideEffects, fun _ _ _ h => by cases h; exact ht,
      fun _ _ p h => by cases h; exact hroot p rfl⟩
  refine (dispatch_defers hstart hjob).andThen ?_
  rintro _ w' _ w₁ ⟨rfl, rfl, hcalm, hsound, hsettles⟩ p w ho
  cases ho
  exact ⟨_, w₁, rfl, rfl, rfl, rfl, hcalm, hsound, hsettles, .inl rfl⟩

/-- What precedes the hand-over does not depend on the executor. -/
theorem executeWith_postpones :
    Postpones engine later (depth + 1) (Transition.executeWith engine start)
      (Transition.executeWith engine start') := by
  intro t context root v ht hroot
  let R (p : Except EngineError Unit × View) (w' : World) (q : Except EngineError Unit × View)
      (w₁ : World) : Prop :=
    p.2.key = v.key ∧ q.2.key = v.key ∧ Deferred engine later (depth + 1) v.key p.1 w' q.1 w₁
  change Defers _ _ _ R
  have hrefused {e : EngineError} {v' : View} {w : World} (h : CalmAt v.key (v', w)) :
      R (.error e, v') w (.error e, v') (w.under .queue) :=
    ⟨h.onKey, h.onKey, h.calm.deferred⟩
  refine .mono (.bindView (P := CalmAt v.key) ViewM.isLocked_impartial
      (ViewM.isLocked_meets CalmAt.working.reading engine CalmAt.takes) (fun locked v' => ?_)
      fun e v' w h => hrefused h)
    (fun w h => ⟨rfl, h⟩) fun _ _ _ _ h => h
  extract_lets go rest go' rest'
  have hgo (v' : View) :
      Defers (fun w => CalmAt v.key (v', w)) ((go ()).run.run v') ((go' ()).run.run v') R := by
    refine .bindView (t.recordStart_impartial engine context) (CalmAt.recordStart_meets t context)
      (fun number v' => ?_) fun _ _ _ h => hrefused h
    refine .bindView (t.report_impartial (I := .under engine .queue) _) (t.report_meets CalmAt.working.toWriting _)
      (fun _ v' => ?_) fun _ _ _ h => hrefused h
    refine .bindView (t.enter_impartial (I := .under engine .queue))
      (t.enter_meets CalmAt.working.toWriting CalmAt.takes fun _ _ _ h _ _ => h)
      (fun previous v' => ?_) fun _ _ _ h => hrefused h
    intro w hw
    have hdefers := handOver_defers hstart start' ht context hroot number previous v'
    rw [hw.onKey] at hdefers
    exact hdefers w hw.calm
  have hrest (taken : Bool) (v' : View) :
      Defers (fun w => CalmAt v.key (v', w)) ((rest taken).run.run v') ((rest' taken).run.run v') R := by
    cases taken with
    | true => exact hgo v'
    | false =>
        refine .bindView (t.report_impartial (I := .under engine .queue) _) (t.report_meets CalmAt.working.toWriting _)
          (fun _ v' => ?_) fun _ _ _ h => hrefused h
        exact .pure fun _ h => hrefused h
  split
  · exact hrest false v'
  · exact .bindView ViewM.lock_impartial (CalmAt.working.lock_meets CalmAt.takes) hrest fun _ _ _ h => hrefused h

end

theorem execute_postpones (engine : Engine) {depth bound : Nat} (h : depth ≤ bound) :
    Postpones engine (Transition.execute engine bound) depth (Transition.execute engine depth)
      (Transition.execute engine bound) := by
  induction depth with
  | zero =>
      intro t context root v ht hroot w hw a w' ho
      cases ho
  | succ depth ih =>
      obtain ⟨bound, rfl⟩ := Nat.exists_eq_add_one_of_ne_zero (Nat.ne_zero_of_lt h)
      exact executeWith_postpones (ih (Nat.le_of_succ_le h))

/-! ## Invoking -/

theorem World.Sound.refresh {v : View} {w : World} (h : w.Sound v.key) :
    ∃ e, EngineM.outcome (ViewM.refresh.run.run v) w = (some (.ok e, v.remember e), w) := by
  obtain ⟨e, he⟩ := Option.isSome_iff_exists.1 h.entity
  exact ⟨e, ViewM.refresh_outcome (World.serves_of_nil h.faults) he⟩

/-- A view of a calm world, where the entity is there if the view remembers one. -/
structure Looking (k : StateKey) (s : View × World) : Prop where
  onKey : s.1.key = k
  faults : s.2.faults = []
  inline : s.2.executor = .inline
  queue : s.2.queue = []
  known : s.1.memo.isSome → (s.2.entities.find? k.kind k.id).isSome

theorem Looking.reading {k : StateKey} : Reading (Looking k) where
  struck call h := ⟨h.onKey, by rw [World.struck, h.faults]; rfl, h.inline, h.queue, h.known⟩
  asked _ h := ⟨h.onKey, h.faults, h.inline, h.queue, h.known⟩
  remembered _ he h := ⟨h.onKey, h.faults, h.inline, h.queue, fun _ => by rw [← h.onKey, he]; rfl⟩

theorem Looking.calm {k : StateKey} {v : View} {w : World} {t : Transition} (h : Looking k (v, w))
    (ht : t.Fits v) : CalmAt k (v, w) := by
  obtain ⟨-, -, e, hsome, -⟩ := ht
  exact ⟨h.onKey, ⟨h.faults, h.known (by rw [hsome]; rfl)⟩, h.inline, h.queue⟩

theorem Process.invoke_defers (engine : Engine) (depth : Nat) (action : String) (user : Option Caller)
    (context : Context) {p : Process} (hp : p.Obeys (·.isOwn = true)) (v : View) :
    Defers (fun w => Looking v.key (v, w)) ((p.invoke engine depth action user context).run.run v)
      ((p.invoke engine depth action user context).run.run v)
      fun p w' q w₁ => q.1 = p.1 ∧ Settles engine (Transition.execute engine depth) depth w' w₁ := by
  unfold Process.invoke Process.invokeWith
  refine .bindView (p.candidates_impartial _)
    (p.candidates_meets Looking.reading engine _ fun _ _ _ h => h) (fun ts v' => ?_) fun _ _ _ h => ⟨rfl, .rest h.queue⟩
  split
  · rename_i t
    intro w hw
    obtain ⟨hmem, hfits⟩ := hw.2 t (List.mem_singleton_self t)
    have hcalm := hw.1.calm hfits
    have hdefers := execute_postpones engine (Nat.le_refl depth) t (context.withUser user) (some p) v'
      (hp t hmem) fun _ h => by cases h; exact hp
    rw [hcalm.onKey] at hdefers
    rw [ViewM.run_bind]
    refine hdefers.andThen ?_ w hcalm.calm
    rintro ⟨_, v₂⟩ w' ⟨r, v₁⟩ w₁ ⟨hkey, hkey₁, h⟩ _ _ ho
    obtain rfl := h.result
    cases r with
    | error e =>
        cases ho
        exact ⟨_, w₁, rfl, rfl, h.settles⟩
    | ok _ =>
        -- The entity is read anew, before the job runs here and after it there.
        obtain ⟨e, he⟩ := World.Sound.refresh (hkey ▸ h.calm.toSound)
        obtain ⟨e₁, he₁⟩ := World.Sound.refresh (hkey₁ ▸ h.sound)
        rw [ViewM.run_bind, EngineM.outcome_bind_some he] at ho
        cases ho
        rw [ViewM.run_bind, EngineM.outcome_bind_some he₁]
        exact ⟨_, w₁, rfl, rfl, h.settles⟩
  · exact .pure fun _ h => ⟨rfl, .rest h.1.queue⟩
  · exact .pure fun _ h => ⟨rfl, .rest h.1.queue⟩

/--
Where an inline run ends, a run under the queue returns the same, and running its jobs, each in either way,
makes the rest the same as well: what the stores hold, which events were emitted and what was asked and run.
The entity may be missing, but it may not have gone since the view has read it.
-/
theorem Process.invoke_queued {engine : Engine} {depth : Nat} {action : String} {user : Option Caller}
    {context : Context} {p : Process} {v v' : View} {w w' : World} {r : Except EngineError Unit}
    (hp : p.Obeys (·.isOwn = true)) (hfaults : w.faults = []) (hqueue : w.queue = [])
    (hknown : v.memo.isSome → (w.entities.find? v.key.kind v.key.id).isSome)
    (hinline : EngineM.outcome ((p.invoke engine depth action user context).run.run v) (w.under .inline) =
      (some (r, v'), w')) :
    ∃ v₁ w₁, EngineM.outcome ((p.invoke engine depth action user context).run.run v) (w.under .queue) =
        (some (r, v₁), w₁) ∧
      ∀ detached bound, depth < bound →
        EngineM.outcome (EngineM.drainQueue engine (Transition.execute engine depth) detached bound) w₁ =
          (some (), w'.under .queue) := by
  obtain ⟨⟨_, v₁⟩, w₁, hlater, rfl, hsettles⟩ := p.invoke_defers engine depth action user context hp v
    (w.under .inline) ⟨rfl, hfaults, rfl, hqueue, hknown⟩ _ w' hinline
  exact ⟨v₁, w₁, hlater, hsettles⟩

theorem Process.sealing_queued :
    ∃ v' w', EngineM.outcome ((Locker.sealing.invoke (Locker.engine []) 3 "lock" none .empty).run.run
        (.fresh Locker.field)) ((Locker.world .pool).under .inline) = (some (.ok (), v'), w') ∧
      ∃ v₁ w₁, EngineM.outcome ((Locker.sealing.invoke (Locker.engine []) 3 "lock" none .empty).run.run
          (.fresh Locker.field)) ((Locker.world .pool).under .queue) = (some (.ok (), v₁), w₁) ∧
        ∀ detached bound, 3 < bound →
          EngineM.outcome (EngineM.drainQueue (Locker.engine []) (Transition.execute (Locker.engine []) 3)
            detached bound) w₁ = (some (), w'.under .queue) := by
  have hends : (EngineM.outcome ((Locker.sealing.invoke (Locker.engine []) 3 "lock" none .empty).run.run
      (.fresh Locker.field)) ((Locker.world .pool).under .inline)).1.map Prod.fst = some (.ok ()) := by
    decide +kernel
  have hown : Locker.sealing.Obeys (·.isOwn = true) := by
    simp [Locker.sealing, Process.Obeys, Process.allTransitions, Process.allTransitionsIn, Transition.Obeys,
      Transition.commands, Program.All, Op.isOwn]
  have hqueued := @invoke_queued (Locker.engine []) 3 "lock" none .empty Locker.sealing (.fresh Locker.field)
  cases ho : EngineM.outcome ((Locker.sealing.invoke (Locker.engine []) 3 "lock" none .empty).run.run
    (.fresh Locker.field)) ((Locker.world .pool).under .inline) with
  | mk o w' =>
      rw [ho] at hends
      obtain ⟨⟨_, v'⟩, rfl, rfl⟩ := Option.map_eq_some_iff.1 hends
      exact ⟨v', w', rfl, hqueued hown rfl rfl (by decide) ho⟩

end Workflow
