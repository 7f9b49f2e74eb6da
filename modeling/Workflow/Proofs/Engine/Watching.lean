import Workflow.Proofs.Engine.Watch

/-!
# Watching whole transitions

What a watch says is kept by commands, jobs and starts, whatever the executor and the faults. A view loses
sight of its field when others may have written it: when commands have run, or the job of its transition.
-/

namespace Workflow.Watch

variable {engine : Engine} {I : Watch engine} {k : StateKey}

variable (I) in
/-- What is known of starts from inside a run. -/
def Minds (start : Start) : Prop :=
  ∀ ⦃k t root⦄ context, I.keys k → I.serves k t → (∀ p, root = some p → I.Serves k p) →
    Meets (I.Eye k) (start t context root) (fun _ => I.Own k) (I.exits k)

/-! ## Commands -/

section

variable {start : Start} (hstart : I.Minds start)

include hstart

theorem invokeWith_meets (hk : I.keys k) {p : Process} (hp : I.Serves k p) (action : String)
    (context : Context) :
    Meets (I.Eye k) (p.invokeWith engine start action context) (fun _ => I.Own k) (I.exits k) := by
  unfold Process.invokeWith
  refine .bind (p.candidates_meets (Eye.still hk).viewing.reading engine _ fun _ _ _ h => h.toOwn)
    fun ts => ?_
  split
  · rename_i t
    refine .point fun s hs => ?_
    obtain ⟨hmem, -⟩ := hs.2 t (List.mem_singleton_self t)
    have hroot (q : Process) (h : some p = some q) : I.Serves k q := by
      cases h
      exact hp
    refine .bind ((hstart context hk (hp t hmem) hroot).pre fun _ h => h ▸ hs.1) fun _ => ?_
    refine .bind (ViewM.reread_meets (Own.still hk).viewing ((Own.still hk).takes fun _ _ h => h)) fun _ => ?_
    exact .pure fun _ h => h
  · exact .throw fun _ h => h.1.toOwn
  · exact .throw fun _ h => h.1.toOwn

theorem invokeNamed_meets {process : String} {key : StateKey} {action : String} {data : Table}
    (hop : I.allows k (.invoke process key action data)) (context : Context) :
    Meets I.Base (Op.invokeNamed engine start process key action context) (fun _ => I.Base)
      (.only I.holds) := by
  unfold Op.invokeNamed
  split
  · rename_i p hp
    obtain ⟨hkey, hserves⟩ := I.invoked hop hp
    refine ((ViewM.onFresh_meets (invokeWith_meets hstart hkey hserves action context)).pre
      fun w h => h.fresh key).post fun r w ⟨v, h⟩ => ?_
    cases r with
    | ok _ => exact h.base
    | error _ => exact h.base
  · exact .pure fun _ h => h

theorem op_meets (hk : I.keys k) (op : Op) (hop : I.allows k op) {E} :
    Meets (I.Own k) (op.run engine start) (fun _ => I.Own k) ⟨E, I.holds⟩ := by
  have hstill := Own.still hk
  cases op with
  | lock => exact .liftCommand (hstill.lock_meets fun _ _ h => h).attempt
  | unlock => exact .liftCommand (hstill.unlock_meets fun _ _ h => h).attempt
  | removeEntity =>
      refine .bind Op.getView_meets fun v => Op.ofEngine_meets fun v' => EngineM.modify_meets fun w h => ?_
      obtain ⟨hown, rfl⟩ := h
      obtain rfl : v'.key = k := hown.onKey
      exact hown.next (I.removed hk hop hown.base.holds) rfl
  | invoke process key action data =>
      refine .bind (M := fun _ => I.Own k) (fun c => Worldly.pure (m := FieldM) fun _ h => h)
        fun c => Op.ofEngine_meets fun v => .point fun w hw => ?_
      have hinvoked : Meets (fun w' => w' = w)
          (Op.invokeNamed engine start process key action ⟨c.user, data, none⟩) (fun _ => I.Base)
          (.only I.holds) := (invokeNamed_meets hstart hop _).pre fun _ h => h ▸ hw.base
      exact hinvoked.post fun _ w' h => ⟨h, hw.onKey, hw.keeps⟩
  | _ =>
      refine Op.run_views hstill.viewing _ rfl fun field value hwrites v w entities hset h => ?_
      obtain rfl : v.key = k := h.onKey
      exact h.next (I.wrote hk hop hwrites hset h.base.holds) rfl

theorem runAll_meets (hk : I.keys k) {cs : List Command} (hcs : ∀ c ∈ cs, c.body.All (I.allows k)) {E} :
    Meets (I.Own k) (Command.runAll engine start cs) (fun _ => I.Own k) ⟨E, I.holds⟩ :=
  Command.runAll_meets (Own.still hk).viewing (fun op hop => op_meets hstart hk op hop) cs hcs

/-! ## Ends of transitions -/

theorem proceed_meets (hk : I.keys k) (t : Transition) {p : Process} (hp : I.Serves k p) (next : String)
    (context : Context) :
    Meets (I.Eye k) (t.proceed engine start next context p) (fun _ => I.Own k) (I.exits k) := by
  refine .bind (p.candidates_meets (Eye.still hk).viewing.reading engine _ fun _ _ _ h => h.toOwn) fun us => ?_
  split
  · rename_i u
    refine .point fun s hs => ?_
    obtain ⟨hmem, -⟩ := hs.2 u (List.mem_singleton_self u)
    exact (hstart _ hk (hp u hmem) fun _ h => by cases h; exact hp).pre fun _ h => h ▸ hs.1
  · exact ((Eye.still hk).report_meets t _ rfl).mono (fun _ h => h.1) (fun _ _ h => h.toOwn) (fun _ _ h => h)
      fun _ h => h

/-- A transition that is gone on with has a view of its own. -/
theorem chain_meets (hk : I.keys k) (t : Transition) {root : Option Process}
    (hroot : ∀ p, root = some p → I.Serves k p) (next : String) (context : Context) :
    Meets (I.Own k) (t.chain engine start next context root) (fun _ => I.Own k) (I.exits k) := by
  cases root with
  | none => exact (Own.still hk).report_meets t _ rfl
  | some p =>
      refine .point fun s hs => ?_
      obtain rfl := hs.onKey
      have hproceed := proceed_meets hstart hk t (hroot p rfl) next context
      refine (t.chain_steps s (hproceed.mono ?_ (fun _ _ h => h.base) (fun _ _ h => h) fun _ h => h) ?_).post ?_
      · exact fun _ h => h ▸ hs.base.fresh s.1.key
      · exact fun e s' h => h.base.next (I.quiet hk (.told next _ rfl) h.base.holds) rfl
      · exact fun _ s' h => ⟨h.2, by rw [h.1], by rw [h.1]; exact hs.keeps⟩

theorem succeed_meets (hk : I.keys k) {t : Transition} (ht : I.serves k t) (context : Context)
    (number : Option Nat) :
    Meets (I.Eye k) (t.succeed engine start context number) (fun _ => I.Own k) (I.exits k) := by
  apply t.succeed_steps ((Eye.still hk).release_meets exits_back t number)
    fun kind hkind => (Eye.still hk).report_meets t kind hkind
  · intro value hvalue
    exact writeState_meets hk t (I.writes ht (Transition.mem_writes.2 (.inl hvalue))) _
  · apply t.runCallbacks_steps
    · exact (runAll_meets hstart hk (I.obeys ht).callbacks).pre fun _ h => h.toOwn
    · exact fun kind hkind => (Own.still hk).report_meets t kind hkind

theorem complete_meets (hk : I.keys k) {t : Transition} (ht : I.serves k t) {root : Option Process}
    (hroot : ∀ p, root = some p → I.Serves k p) (context : Context) (number : Option Nat) :
    Meets (I.Eye k) (t.complete engine start context root number) (fun _ => I.Own k) (I.exits k) := by
  refine .bind (succeed_meets hstart hk ht context number) fun context => ?_
  split
  · exact chain_meets hstart hk t hroot _ context
  · exact .pure fun _ h => h

theorem fail_meets (hk : I.keys k) {t : Transition} (ht : I.serves k t) (failure : CommandFailure)
    (context : Context) (number : Option Nat) :
    Meets (I.Eye k) (t.fail engine start failure context number) (fun _ => I.Own k) (I.exits k) := by
  apply t.fail_steps ((Eye.still hk).release_meets exits_back t number)
    fun kind hkind => (Eye.still hk).report_meets t kind hkind
  · intro value hvalue
    exact writeState_meets hk t (I.writes ht (Transition.mem_writes.2 (.inr (.inr hvalue)))) _
  · apply t.runCallbacks_steps
    · exact (runAll_meets hstart hk (I.obeys ht).failureCallbacks).pre fun _ h => h.toOwn
    · exact fun kind hkind => (Own.still hk).report_meets t kind hkind

/-! ## Jobs -/

variable {job : Job} (hjob : I.Carries job)

include hjob

theorem job_meets : Meets I.Base (job.run engine start) (fun _ => I.Base) (.only I.holds) := by
  have hended {m : ViewM Unit} (hm : Meets (I.Eye job.key) m (fun _ => I.Own job.key) (I.exits job.key)) :
      Meets I.Base (ViewM.onFresh job.key m) (fun _ => I.Base) (.only I.holds) := by
    refine ((ViewM.onFresh_meets hm).pre fun w h => h.fresh job.key).post fun r w ⟨v, h⟩ => ?_
    cases r with
    | ok _ => exact h.base
    | error _ => exact h.base
  have hnoted (note : Note) (r : Except EngineError Unit) :
      Meets I.Base (do EngineM.record (.note note); return r) (fun _ => I.Base) (.only I.holds) := by
    refine .bind (m := EngineM) (M := fun _ => I.Base) ?_ fun _ => .pure fun _ h => h
    exact EngineM.modify_meets fun w h => h.next (I.quiet hjob.key (.remarked _ rfl) h.holds) rfl
  unfold Job.run
  refine .bind (m := EngineM) (M := fun _ => I.Base) ?_ fun ⟨⟨failure, context⟩, _⟩ => ?_
  · have hsteps := runAll_meets (E := fun _ _ => True) hstart hjob.key hjob.steps
    exact Meets.mono (m := EngineM) (hsteps job.context (View.fresh job.key))
      (fun w h => (h.fresh job.key).toOwn) (fun _ _ h => h.base) (fun _ _ h => h) fun _ h => h
  · cases hcontinuation : job.continuation with
    | finish n t root =>
        have ht := hjob.transition n t root hcontinuation
        cases failure with
        | none =>
            apply hended
            exact complete_meets hstart hjob.key ht
              (fun p hp => hjob.root n t p (hp ▸ hcontinuation)) context _
        | some failure => exact hended (fail_meets hstart hjob.key ht failure context _)
    | reply onSuccess onFailure =>
        cases failure with
        | none => exact hnoted _ _
        | some failure => exact hnoted _ _

theorem runDetached_meets : Meets I.Base (job.runDetached engine start) (fun _ => I.Base) (.only I.holds) := by
  unfold Job.runDetached
  refine .bind (m := EngineM) (job_meets hstart hjob) fun r => ?_
  cases r with
  | ok _ => exact .pure fun _ h => h
  | error e =>
      exact EngineM.modify_meets fun w h => h.next (I.quiet hjob.key (.told job.action _ rfl) h.holds) rfl

/-- A job that is rejected has changed no entity. -/
theorem handTo_meets (executor : Executor) (entities : EntityStore) :
    Meets (fun w => I.Base w ∧ w.entities = entities) (job.handTo engine start executor)
      (fun r w => I.Base w ∧ ∀ reason, r = .error (.rejected reason) → w.entities = entities)
      (.only I.holds) := by
  have hwaits {w w' : World} (h : I.Base w) (hholds : I.holds w')
      (hpending : ∀ j ∈ w'.pending, j ∈ w.pending ∨ j = job) : I.Base w' := by
    refine ⟨hholds, fun j hj => ?_⟩
    cases hpending j hj with
    | inl hj => exact h.jobs j hj
    | inr heq => exact fun _ => heq ▸ hjob
  induction executor with
  | inline =>
      refine .bind (m := EngineM) ((job_meets hstart hjob).pre fun w h => h.1) fun r => ?_
      cases r with
      | ok _ => exact .pure fun _ h => ⟨h, nofun⟩
      | error e => exact .pure fun _ h => ⟨h, nofun⟩
  | detaching =>
      refine .bind (m := EngineM) ((runDetached_meets hstart hjob).pre fun w h => h.1) fun _ => ?_
      exact .pure fun _ h => ⟨h, nofun⟩
  | queue =>
      refine .bind (m := EngineM) (M := fun _ => I.Base) ?_ fun _ => .pure fun _ h => ⟨h, nofun⟩
      refine EngineM.modify_meets fun w h => hwaits h.1 (I.queued hjob.key h.1.holds) fun j hj => ?_
      simp only [Scene.pending, List.mem_append, List.mem_singleton] at hj ⊢
      exact or_right_comm.1 hj
  | pool =>
      refine .bind (m := EngineM) (M := fun _ => I.Base) ?_ fun _ => .pure fun _ h => ⟨h, nofun⟩
      refine EngineM.modify_meets fun w h => hwaits h.1 (I.pooled hjob.key h.1.holds) fun j hj => ?_
      simp only [Scene.pending, List.mem_append, List.mem_singleton] at hj ⊢
      exact or_assoc.2 hj
  | rejecting reason => exact .pure fun _ h => ⟨h.1, fun _ _ => h.2⟩
  | varying first rest ihfirst ihrest =>
      refine .bind (m := EngineM) (M := fun _ w => I.Base w ∧ w.entities = entities) ?_ fun _ => ihfirst
      exact EngineM.modify_meets fun w h => ⟨h.1.next (I.switched rest h.1.holds) rfl, h.2⟩

theorem dispatch_meets (entities : EntityStore) :
    Meets (fun w => I.Base w ∧ w.entities = entities) (job.dispatch engine start)
      (fun r w => I.Base w ∧ ∀ reason, r = .error (.rejected reason) → w.entities = entities)
      (.only I.holds) := by
  refine .bind (m := EngineM) EngineM.get_meets fun w => ?_
  exact (handTo_meets hstart hjob _ entities).pre fun _ h => h.2

end

/-! ## Starts -/

section

variable {start : Start} (hstart : I.Minds start) (hk : I.keys k) {t : Transition} (ht : I.serves k t)
  {root : Option Process} (hroot : ∀ p, root = some p → I.Serves k p)

include hstart hk ht hroot

theorem handOver_meets (context : Context) (number : Nat) {previous : Option String}
    (hprevious : ∀ state, previous = some state → I.legit k state) :
    Meets (I.Eye k) (t.handOver engine start context root number previous) (fun _ => I.Own k)
      (I.exits k) := by
  refine .point fun s hs => .bindKnown (ViewM.key_meets s) ?_
  obtain ⟨v, w⟩ := s
  obtain rfl : v.key = k := hs.onKey
  let job : Job := ⟨v.key, t.action, context, t.sideEffects, .finish number t root⟩
  have hjob : I.Carries job := by
    refine ⟨hk, (I.obeys ht).sideEffects, ?_, ?_⟩
    · rintro _ _ _ ⟨⟩
      exact ht
    · rintro _ _ p ⟨⟩
      exact hroot p rfl
  refine .bind (M := fun r s' => s'.1 = v ∧ I.Base s'.2 ∧
    ∀ reason, r = .error (.rejected reason) → s'.2.entities = w.entities) ?_ fun r => ?_
  · refine ViewM.ofEngine_meets fun v' => .point fun _ h => ?_
    cases h
    have hbefore (w') (h : w' = w) : I.Base w' ∧ w'.entities = w.entities := by
      cases h
      exact ⟨hs.base, rfl⟩
    have hdispatched := (dispatch_meets hstart hjob w.entities).pre hbefore
    exact hdispatched.post fun _ _ h => ⟨rfl, h⟩
  · have hown {s' : View × World} (hv : s'.1 = v) (hbase : I.Base s'.2) : I.Own v.key s' :=
      ⟨hbase, hv ▸ rfl, hv ▸ hs.keeps⟩
    match r with
    | .ok () => exact .pure fun s h => hown h.1 h.2.1
    | .error (.continuation e) => exact .throw fun s h => hown h.1 h.2.1
    | .error (.rejected reason) =>
        refine .bind ((abort_meets hk ht hprevious reason _).pre ?_) fun _ => .throw fun _ h => h.toOwn
        rintro ⟨v', w'⟩ ⟨rfl, hbase, hsame⟩
        exact ⟨hown rfl hbase, I.seen (hsame reason rfl) hs.sees⟩

omit hk ht hroot in
theorem executeWith_minds : I.Minds (Transition.executeWith engine start) := by
  intro k t root context hk ht hroot
  have hstill := Eye.still (I := I) hk
  refine .bind (ViewM.isLocked_meets hstill.viewing.reading engine (hstill.takes exits_back)) fun locked => ?_
  extract_lets go rest
  have hgo (u : Unit) : Meets (I.Eye k) (go u) (fun _ => I.Own k) (I.exits k) := by
    refine .bind (hstill.recordStart_meets t context) fun n => ?_
    refine .bind (hstill.report_meets t _ rfl) fun _ => ?_
    refine .bind (enter_meets hk ht) fun previous => .point fun s hs => ?_
    exact (handOver_meets hstart hk ht hroot context n hs.2).pre fun _ h => h ▸ hs.1
  have hrest (taken : Bool) : Meets (I.Eye k) (rest taken) (fun _ => I.Own k) (I.exits k) := by
    cases taken with
    | false =>
        refine .bind (hstill.report_meets t _ rfl) fun _ => ?_
        exact .bind (M := fun _ _ => False) (.throw fun _ h => h.toOwn) fun _ => .absurd
    | true => exact hgo ()
  split
  · exact .bind (.pure fun _ h => h) hrest
  · exact .bind (hstill.lock_meets exits_back) hrest

end

theorem execute_minds (depth : Nat) : I.Minds (Transition.execute engine depth) := by
  induction depth with
  | zero =>
      intro k t root context _ _ _
      exact ViewM.ofEngine_meets fun v => EngineM.tooDeep_meets fun w h => h.base.holds
  | succ depth ih => exact executeWith_minds ih

end Workflow.Watch
