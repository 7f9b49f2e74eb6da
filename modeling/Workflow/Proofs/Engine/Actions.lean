import Workflow.Proofs.Engine.Framing
import Workflow.Proofs.Engine.Outcomes

/-!
# Actions

An action writes nothing but its failed state, and this only when its job is refused or one of the commands of
its job fails. Whether it does is known once the job is at hand, and the world in which it is handed over.
-/

namespace Workflow

/-! ## Jobs that go wrong -/

namespace Job

variable (engine : Engine) (start : Start) (job : Job)

/-- Whether one of the commands fails when the job is run. -/
def fails (w : World) : Bool :=
  match (EngineM.outcome (((Command.runAll engine start job.steps).run job.context).run (.fresh job.key)) w).1 with
  | some ((failure, _), _) => failure.isSome
  | none => false

/-- Whether the job is refused or fails when it is handed to the executor. -/
def goesWrong : Executor → World → Bool
  | .inline, w | .detaching, w => job.fails engine start w
  | .queue, _ | .pool, _ => false
  | .rejecting _, _ => true
  | .varying first rest, w => goesWrong first { w with executor := rest }

/-- The transition that the job belongs to, if it is one. -/
def transition? : Option Transition :=
  match job.continuation with
  | .finish _ t _ => some t
  | .reply .. => none

/-- The transition of a job that goes wrong. -/
def setback? (executor : Executor) (w : World) : Option Transition :=
  if job.goesWrong engine start executor w then job.transition? else none

/-- The transition is an action, and one without a failed state if things go wrong. -/
def Tame (wrong : Bool) : Prop :=
  ∀ t, job.transition? = some t → t.isAction = true ∧ (t.failed.isSome → wrong = false)

theorem tame_or_setback (executor : Executor) (w : World)
    (hactions : ∀ t, job.transition? = some t → t.isAction = true) :
    job.Tame (job.goesWrong engine start executor w) ∨
      ∃ t, job.transition? = some t ∧ t.failed.isSome ∧ job.setback? engine start executor w = some t := by
  cases hwrong : job.goesWrong engine start executor w with
  | false => exact .inl fun t ht => ⟨hactions t ht, fun _ => rfl⟩
  | true =>
      by_cases hfailed : ∃ t, job.transition? = some t ∧ t.failed.isSome
      · obtain ⟨t, ht, hsome⟩ := hfailed
        exact .inr ⟨t, ht, hsome, by rw [setback?, if_pos hwrong, ht]⟩
      · exact .inl fun t ht => ⟨hactions t ht, fun hsome => absurd ⟨t, ht, hsome⟩ hfailed⟩

variable {job}

theorem Tame.failed {t : Transition} (h : job.Tame true) (ht : job.transition? = some t) :
    t.failed = none := by
  by_contra hsome
  exact Bool.false_ne_true ((h t ht).2 (Option.isSome_iff_ne_none.2 hsome)).symm

end Job

/-- The job of a transition. -/
def Transition.job (t : Transition) (key : StateKey) (context : Context) (root : Option Process)
    (number : Nat) : Job :=
  ⟨key, t.action, context, t.sideEffects, .finish number t root⟩

/-! ## Unchanged entities -/

/-- A view of the field, while the entities are these. -/
def Held (K : StateKey) (entities : EntityStore) (s : View × World) : Prop :=
  s.1.key = K ∧ s.2.entities = entities

namespace Held

variable {engine : Engine} {start : Start} {K : StateKey} {entities : EntityStore}

def exits (K : StateKey) (entities : EntityStore) : Exits (View × World) :=
  ⟨fun _ => Held K entities, fun w => w.entities = entities⟩

theorem back : (exits K entities).Back (Held K entities) :=
  fun _ _ h => h

theorem still : Still engine K (Held K entities) where
  onKey h := h.1
  quiet hquiet h := ⟨h.1, hquiet.entities.trans h.2⟩
  reread _ h := h

theorem runAll_meets {cs : List Command} (hcs : ∀ c ∈ cs, c.body.All Op.Harmless) {X} :
    Meets (Held K entities) (Command.runAll engine start cs) (fun _ => Held K entities) X := by
  have hstill : Still engine K (Held K entities) := still
  refine Command.runAll_meets hstill.viewing (fun op hop => ?_) cs hcs
  exact Op.run_views hstill.viewing op hop.isPlain fun _ _ hwrites =>
    absurd (hwrites.symm.trans hop.writes?_eq_none) (Option.some_ne_none _)

end Held

namespace Transition

section

variable {t : Transition} (h : t.isAction = true)

include h

theorem effect_of_isAction : t.effect = .keeps := by
  simpa [isAction] using h

theorem target_of_isAction : t.target = none := by
  rw [target, effect_of_isAction h]

theorem inProgress_of_isAction : t.inProgress = none := by
  rw [inProgress, effect_of_isAction h]

theorem next_of_isAction : t.next = none := by
  rw [next, effect_of_isAction h]

end

variable {engine : Engine} {start : Start} {K : StateKey} {entities : EntityStore} {t : Transition}

theorem runCallbacks_holds {callbacks : List Command} (hcs : ∀ c ∈ callbacks, c.body.All Op.Harmless)
    (onFailurePath : Bool) (context : Context) :
    Meets (Held K entities) (t.runCallbacks engine start callbacks onFailurePath context)
      (fun _ => Held K entities) (Held.exits K entities) := by
  have hstill : Still engine K (Held K entities) := Held.still
  apply t.runCallbacks_steps (Held.runAll_meets hcs)
  exact fun kind hkind => hstill.report_meets t kind hkind

theorem complete_holds (h : t.isAction = true) (ht : t.Obeys Op.Harmless) (context : Context)
    (root : Option Process) (number : Option Nat) :
    Meets (Held K entities) (t.complete engine start context root number) (fun _ => Held K entities)
      (Held.exits K entities) := by
  have hstill : Still engine K (Held K entities) := Held.still
  unfold complete
  rw [next_of_isAction h]
  refine .bind (M := fun _ => Held K entities) ?_ fun _ => .pure fun _ h => h
  apply t.succeed_steps (hstill.release_meets Held.back t number)
    fun kind hkind => hstill.report_meets t kind hkind
  · intro value hvalue
    cases (target_of_isAction h).symm.trans hvalue
  · exact runCallbacks_holds ht.callbacks false context

theorem fail_holds (hfailed : t.failed = none) (ht : t.Obeys Op.Harmless) (failure : CommandFailure)
    (context : Context) (number : Option Nat) :
    Meets (Held K entities) (t.fail engine start failure context number) (fun _ => Held K entities)
      (Held.exits K entities) := by
  have hstill : Still engine K (Held K entities) := Held.still
  apply t.fail_steps (hstill.release_meets Held.back t number)
    fun kind hkind => hstill.report_meets t kind hkind
  · intro value hvalue
    cases hfailed.symm.trans hvalue
  · exact runCallbacks_holds ht.failureCallbacks true _

theorem abort_holds (hfailed : t.failed = none) (reason : String) (number : Option Nat) :
    Meets (Held K entities) (t.abort engine none reason number) (fun _ => Held K entities)
      (Held.exits K entities) := by
  have hstill : Still engine K (Held K entities) := Held.still
  apply t.abort_steps (hstill.release_meets Held.back t number)
    fun kind hkind => hstill.report_meets t kind hkind
  intro value hvalue
  rw [hfailed] at hvalue
  cases hvalue

end Transition

namespace Job

variable {engine : Engine} {start : Start} {job : Job} {w : World}

theorem steps_hold (hsteps : ∀ c ∈ job.steps, c.body.All Op.Harmless) :
    Meets (m := EngineM) (fun w' => w' = w)
      (((Command.runAll engine start job.steps).run job.context).run (View.fresh job.key))
      (fun r w' => w'.entities = w.entities ∧ (r.1.1.isSome → job.fails engine start w = true))
      (.only (·.entities = w.entities)) := by
  rintro w rfl
  have hheld : Meets (Held job.key w.entities) (Command.runAll engine start job.steps)
      (fun _ => Held job.key w.entities) (Held.exits job.key w.entities) := Held.runAll_meets hsteps
  have hends := hheld job.context (View.fresh job.key) w ⟨rfl, rfl⟩
  refine ⟨fun r w' ho => ⟨(hends.1 r w' ho).2, fun hsome => ?_⟩, hends.2⟩
  simp [fails, ho, hsome]

section

variable (hjob : job.Obeys Op.Harmless)

include hjob

/-- The job of an action writes nothing, unless it fails and there is a failed state. -/
theorem run_holds (htame : job.Tame (job.fails engine start w)) :
    Meets (fun w' => w' = w) (job.run engine start) (fun _ w' => w'.entities = w.entities)
      (.only (·.entities = w.entities)) := by
  unfold run
  refine .bind (m := EngineM) (steps_hold hjob.steps) fun ⟨⟨failure, context⟩, _⟩ => ?_
  refine .point fun w₁ ⟨hw₁, hwrong⟩ => ?_
  have hended {m : ViewM Unit} (hm : Meets (Held job.key w.entities) m (fun _ => Held job.key w.entities)
      (Held.exits job.key w.entities)) :
      Meets (fun w' => w' = w₁) (ViewM.onFresh job.key m) (fun _ w' => w'.entities = w.entities)
        (.only (·.entities = w.entities)) := by
    refine ((ViewM.onFresh_meets hm).pre fun w' (h : w' = w₁) => ⟨rfl, h ▸ hw₁⟩).post
      fun r w' ⟨v, h⟩ => ?_
    cases r with
    | ok _ => exact h.2
    | error _ => exact h.2
  have hnoted (note : Note) (r : Except EngineError Unit) :
      Meets (fun w' => w' = w₁) (do EngineM.record (.note note); return r)
        (fun _ w' => w'.entities = w.entities) (.only (·.entities = w.entities)) :=
    .bind (m := EngineM) (M := fun _ w' => w'.entities = w.entities)
      (EngineM.modify_meets fun w' h => h ▸ hw₁) fun _ => .pure fun _ h => h
  cases hcontinuation : job.continuation with
  | finish n t root =>
      have ht := hjob.transition n t root hcontinuation
      have hbelongs : job.transition? = some t := by rw [transition?, hcontinuation]
      cases failure with
      | none => exact hended (Transition.complete_holds (htame t hbelongs).1 ht context root _)
      | some f =>
          rw [hwrong rfl] at htame
          exact hended (Transition.fail_holds (htame.failed hbelongs) ht f context _)
  | reply onSuccess onFailure =>
      cases failure with
      | none => exact hnoted _ _
      | some f => exact hnoted _ _

theorem runDetached_holds (htame : job.Tame (job.fails engine start w)) :
    Meets (fun w' => w' = w) (job.runDetached engine start) (fun _ w' => w'.entities = w.entities)
      (.only (·.entities = w.entities)) := by
  refine .bind (m := EngineM) (run_holds hjob htame) fun r => ?_
  cases r with
  | ok _ => exact .pure fun _ h => h
  | error e => exact EngineM.modify_meets fun _ h => h

/-- A job that is refused has written nothing, and nothing will be written for it. -/
theorem handTo_holds (executor : Executor) (htame : job.Tame (job.goesWrong engine start executor w)) :
    Meets (fun w' => w' = w) (job.handTo engine start executor)
      (fun r w' => w'.entities = w.entities ∧
        ∀ reason, r = .error (.rejected reason) → ∀ t, job.transition? = some t → t.failed = none)
      (.only (·.entities = w.entities)) := by
  induction executor generalizing w with
  | inline =>
      refine .bind (m := EngineM) (run_holds hjob htame) fun r => ?_
      cases r with
      | ok _ => exact .pure fun _ h => ⟨h, nofun⟩
      | error e => exact .pure fun _ h => ⟨h, nofun⟩
  | detaching =>
      refine .bind (m := EngineM) (runDetached_holds hjob htame) fun _ => ?_
      exact .pure fun _ h => ⟨h, nofun⟩
  | queue =>
      refine .bind (m := EngineM) (M := fun _ w' => w'.entities = w.entities) ?_ fun _ => ?_
      · exact EngineM.modify_meets fun w' h => h ▸ rfl
      · exact .pure fun _ h => ⟨h, nofun⟩
  | pool =>
      refine .bind (m := EngineM) (M := fun _ w' => w'.entities = w.entities) ?_ fun _ => ?_
      · exact EngineM.modify_meets fun w' h => h ▸ rfl
      · exact .pure fun _ h => ⟨h, nofun⟩
  | rejecting reason => exact .pure fun _ h => ⟨h ▸ rfl, fun _ _ _ ht => htame.failed ht⟩
  | varying first rest ihfirst _ =>
      refine .bind (m := EngineM) (M := fun _ w' => w' = { w with executor := rest }) ?_ fun _ => ?_
      · exact EngineM.modify_meets fun w' h => h ▸ rfl
      · exact ihfirst htame

end

end Job

/-! ## Starts of actions -/

namespace Transition

variable {engine : Engine} {start : Start} {t : Transition}

theorem handOver_holds (ht : t.Obeys Op.Harmless) {context : Context} {root : Option Process} {n : Nat}
    (s : View × World)
    (htame : (t.job s.1.key context root n).Tame
      ((t.job s.1.key context root n).goesWrong engine start s.2.executor s.2)) :
    Meets (fun s' => s' = s) (t.handOver engine start context root n none)
      (fun _ => Held s.1.key s.2.entities) (Held.exits s.1.key s.2.entities) := by
  refine .bindKnown (ViewM.key_meets s) ?_
  have hjob : (t.job s.1.key context root n).Obeys Op.Harmless :=
    ⟨ht.sideEffects, fun _ _ _ h => by cases h; exact ht⟩
  refine .bind (M := fun r s' => Held s.1.key s.2.entities s' ∧
    ∀ reason, r = .error (.rejected reason) → t.failed = none) ?_ fun r => ?_
  · refine ViewM.ofEngine_meets fun v => .point fun w h => ?_
    cases h
    refine .bind (m := EngineM) EngineM.get_meets fun w' => ?_
    refine .point fun _ ⟨heq, hw⟩ => ?_
    cases heq
    cases hw
    exact (Job.handTo_holds hjob _ htame).post fun r w' h => ⟨⟨rfl, h.1⟩, fun reason hr => h.2 reason hr t rfl⟩
  · match r with
    | .ok () => exact .pure fun _ h => h.1
    | .error (.continuation e) => exact .throw fun _ h => h.1
    | .error (.rejected reason) =>
        refine .point fun s' ⟨hheld, hfailed⟩ => ?_
        refine .bind ((abort_holds (hfailed reason rfl) reason _).pre fun _ h => h ▸ hheld) fun _ => ?_
        exact .throw fun _ h => h

end Transition

/-! ## What is started -/

/-- The transition that the entry tells to be started. -/
def Entry.starts? : Entry → Option Transition
  | started s => some s.transition
  | _ => none

/-- The transition was started since an earlier world. -/
def World.Began (earlier : World) (t : Transition) (w : World) : Prop :=
  ∃ new, w.journal = new ++ earlier.journal ∧ ∃ m ∈ new, m.entry.starts? = some t

/-- No entity was changed since an earlier world, or some transition was started that is no action or such as `φ`. -/
def World.Spared (earlier : World) (φ : Transition → Prop) (w : World) : Prop :=
  w.entities = earlier.entities ∨ ∃ t, earlier.Began t w ∧ (t.isAction = true → φ t)

/-- A view of the field, where since an earlier world no entity was changed. -/
structure Untouched (K : StateKey) (earlier : World) (s : View × World) : Prop where
  held : Held K earlier.entities s
  journal : earlier.journal <:+ s.2.journal

namespace World

variable {w₀ w w' : World} {t : Transition} {φ : Transition → Prop}

theorem Began.later (h : w₀.Began t w) (hjournal : w.journal <:+ w'.journal) : w₀.Began t w' := by
  obtain ⟨new, heq, m, hm, hstarts⟩ := h
  obtain ⟨more, hmore⟩ := hjournal
  exact ⟨more ++ new, by rw [← hmore, heq, List.append_assoc], m, List.mem_append_right _ hm, hstarts⟩

theorem Spared.later (h : w₀.Spared φ w) (hentities : w'.entities = w.entities := by rfl)
    (hjournal : w.journal <:+ w'.journal := by exact List.suffix_rfl) : w₀.Spared φ w' :=
  h.imp hentities.trans fun ⟨t, hbegan, ht⟩ => ⟨t, hbegan.later hjournal, ht⟩

theorem Spared.viewing : Viewing fun s => w₀.Spared φ s.2 where
  struck _ h := h.later
  remarked _ h := h.later rfl (List.suffix_cons _ _)
  reread _ h := h

end World

namespace Untouched

variable {engine : Engine} {K : StateKey} {w₀ : World} {φ : Transition → Prop}

theorem spared {s : View × World} (h : Untouched K w₀ s) : w₀.Spared φ s.2 :=
  .inl h.held.2

theorem still : Still engine K (Untouched K w₀) where
  onKey h := h.held.1
  quiet hquiet h := ⟨Held.still.quiet hquiet h.held, h.journal.trans (World.Framed.quiet hquiet).journal⟩
  reread _ h := ⟨h.held, h.journal⟩

end Untouched

/-- The transition whose job the computation comes to, if the job goes wrong when it is handed over then. -/
def ViewM.setback? (engine : Engine) (start : Start) (offer : ViewM Job) (v : View) (w : World) :
    Option Transition :=
  match offer.outcome v w with
  | (some (.ok job, _), w') => job.setback? engine start w'.executor w'
  | _ => none

namespace Transition

variable (engine : Engine) (start : Start) (t : Transition) (context : Context) (root : Option Process)

/-- Locks the field and tells of the start: all that comes before something is written. -/
def claim : ViewM Nat := do
  let free ← if ← ViewM.isLocked engine then pure false else ViewM.lock engine
  if !free then
    t.report .lockRejected
    throw (.notAllowed t.action .locked)
  let number ← t.recordStart context
  t.report .locked
  return number

/-- The job that the transition comes to hand over. -/
def offer : ViewM Job := do
  let number ← t.claim engine context
  let _ ← t.enter
  return t.job (← ViewM.key) context root number

theorem executeWith_eq :
    executeWith engine start t context root =
      t.claim engine context >>= fun number => t.enter >>= t.handOver engine start context root number := by
  unfold executeWith claim
  rw [bind_assoc]
  refine bind_congr fun locked => ?_
  extract_lets go rest go' rest'
  have hrest (free : Bool) : rest free =
      rest' free >>= fun number => t.enter >>= t.handOver engine start context root number := by
    cases free with
    | true => simp [rest, rest', go, go']
    | false => exact (bind_assoc _ _ _).symm
  split
  · rw [bind_assoc]
    exact bind_congr hrest
  · rw [bind_assoc]
    exact bind_congr hrest

variable {engine start t context root} {K : StateKey} {w₀ : World}

theorem offer_outcome (haction : t.isAction = true) {v v₁ : View} {w w₁ : World} {n : Nat}
    (h : (t.claim engine context).outcome v w = (some (.ok n, v₁), w₁)) :
    (t.offer engine context root).outcome v w = (some (.ok (t.job v₁.key context root n), v₁), w₁) := by
  have henter : t.enter = pure none := by rw [enter, inProgress_of_isAction haction]
  simp only [offer, ViewM.outcome_bind, h, henter, ViewM.outcome_pure, ViewM.outcome_key]

theorem recordStart_begins {X : Exits (View × World)} :
    Meets (Untouched K w₀) (t.recordStart context) (fun _ s => Untouched K w₀ s ∧ w₀.Began t s.2) X := by
  refine .point fun s hs => .bindKnown (ViewM.getView_meets s) (.bindKnown (ViewM.getWorld_meets s) ?_)
  obtain ⟨v, w⟩ := s
  obtain ⟨hheld, new, hnew⟩ := hs
  refine .bindKnown (a := w.starts) (t := (v, w.takeOff v.key)) ?_ ?_
  · refine ViewM.ofEngine_meets fun v' => .point fun _ h => ?_
    cases h
    exact (EngineM.takeOff_meets v.key w).post fun _ _ h => ⟨h.1, h.2 ▸ rfl⟩
  refine .bind (M := fun _ s => Untouched K w₀ s ∧ w₀.Began t s.2) ?_ fun _ => .pure fun _ h => h
  refine ViewM.ofEngine_meets fun v' => EngineM.modify_meets fun _ h => ?_
  cases h
  have hjournal (e : Entry) : ((w.takeOff v.key).record e).journal =
      ⟨e, (w.takeOff v.key).toScene⟩ :: new ++ w₀.journal := World.journal_record hnew.symm rfl
  exact ⟨⟨hheld, _, (hjournal _).symm⟩, _, hjournal _, _, List.mem_cons_self .., rfl⟩

theorem claim_begins {X : Exits (View × World)} (hX : X.Back (Untouched K w₀)) :
    Meets (Untouched K w₀) (t.claim engine context) (fun _ s => Untouched K w₀ s ∧ w₀.Began t s.2) X := by
  have hstill : Still engine K (Untouched K w₀) := Untouched.still
  refine .bind (ViewM.isLocked_meets hstill.viewing.reading engine (hstill.takes hX)) fun locked => ?_
  extract_lets go rest
  have hrest (free : Bool) :
      Meets (Untouched K w₀) (rest free) (fun _ s => Untouched K w₀ s ∧ w₀.Began t s.2) X := by
    cases free with
    | true =>
        refine .bind recordStart_begins fun n => ?_
        refine .bind (M := fun _ s => Untouched K w₀ s ∧ w₀.Began t s.2) ?_ fun _ => .pure fun _ h => h
        refine t.report_tells fun v w ⟨h, hbegan⟩ => ?_
        obtain rfl : v.key = K := h.held.1
        exact ⟨hstill.quiet (.told t.action .locked rfl) h, hbegan.later (List.suffix_cons _ _)⟩
    | false =>
        refine .bind (hstill.report_meets t _ rfl) fun _ => ?_
        exact .bind (M := fun _ _ => False) (.throw fun _ h => hX _ _ h) fun _ => .absurd
  split
  · exact .bind (.pure fun _ h => h) hrest
  · exact .bind (hstill.lock_meets hX) hrest

section

variable {s : View × World} (ht : t.Obeys Op.Harmless) (n : Nat)

include ht

theorem rest_holds (haction : t.isAction = true)
    (htame : (t.job s.1.key context root n).Tame
      ((t.job s.1.key context root n).goesWrong engine start s.2.executor s.2)) :
    Meets (fun s' => s' = s) (t.enter >>= t.handOver engine start context root n)
      (fun _ => Held s.1.key s.2.entities) (Held.exits s.1.key s.2.entities) := by
  rw [enter, inProgress_of_isAction haction]
  exact handOver_holds ht s htame

/-- What comes behind the claim only adds to the journal. -/
theorem rest_adds (hkey : s.1.key = K) (hstart : (framing engine K s.2).Minds start)
    (hroot : ∀ p, root = some p → p.Obeys Op.Harmless) :
    Meets (fun s' => s' = s) (t.enter >>= t.handOver engine start context root n)
      (fun _ s' => s.2.journal <:+ s'.2.journal)
      ⟨fun _ s' => s.2.journal <:+ s'.2.journal, fun w => s.2.journal <:+ w.journal⟩ := by
  have hall : Meets ((framing engine K s.2).Eye K) (t.enter >>= t.handOver engine start context root n)
      (fun _ => (framing engine K s.2).Own K) ((framing engine K s.2).exits K) := by
    refine .bind (Watch.enter_meets rfl ht) fun previous => .point fun s' hs' => ?_
    exact (Watch.handOver_meets hstart rfl ht hroot context n hs'.2).pre fun _ h => h ▸ hs'.1
  exact hall.mono (fun _ => framing.eye hkey) (fun _ _ h => h.base.holds.journal)
    (fun _ _ h => h.base.holds.journal) fun _ h => h.journal

end

/-- A started action whose job does not go wrong changes no entity, nor does one without a failed state. -/
theorem execute_spares {depth : Nat} {φ : Transition → Prop} {s : View × World} (ht : t.Obeys Op.Harmless)
    (hroot : ∀ p, root = some p → p.Obeys Op.Harmless) (hs : Untouched K w₀ s)
    (hφ : (t.offer engine context root).setback? engine (execute engine (depth - 1)) s.1 s.2 = some t →
      t.failed.isSome → φ t) :
    Meets (fun s' => s' = s) (execute engine depth t context root) (fun _ s' => w₀.Spared φ s'.2)
      ⟨fun _ s' => w₀.Spared φ s'.2, w₀.Spared φ⟩ := by
  cases depth with
  | zero =>
      refine ViewM.ofEngine_meets fun v => EngineM.tooDeep_meets fun w h => ?_
      cases h
      exact hs.spared
  | succ depth =>
      rw [execute, executeWith_eq]
      have hclaim : Meets (Untouched K w₀) (t.claim engine context)
          (fun _ s' => Untouched K w₀ s' ∧ w₀.Began t s'.2) ⟨fun _ => Untouched K w₀, w₀.Spared φ⟩ :=
        claim_begins fun _ _ h => h
      refine .bind (((ViewM.outcome_meets (t.claim engine context) s).both hclaim).mono
        (fun _ h => ⟨h, h ▸ hs⟩) (fun _ _ h => h) (fun _ _ h => h.2.spared) fun _ h => h.2) fun n => ?_
      refine .point fun s₁ ⟨ho, huntouched, hbegan⟩ => ?_
      have hstarted (ht' : t.isAction = true → φ t) :
          Meets (fun s' => s' = s₁) (t.enter >>= t.handOver engine (execute engine depth) context root n)
            (fun _ s' => w₀.Spared φ s'.2) ⟨fun _ s' => w₀.Spared φ s'.2, w₀.Spared φ⟩ := by
        have hspared {w : World} (hjournal : s₁.2.journal <:+ w.journal) : w₀.Spared φ w :=
          .inr ⟨t, hbegan.later hjournal, ht'⟩
        exact (rest_adds ht n huntouched.held.1 (Watch.execute_minds depth) hroot).mono (fun _ h => h)
          (fun _ _ => hspared) (fun _ _ => hspared) fun _ => hspared
      cases haction : t.isAction with
      | false => exact hstarted fun h => absurd (haction.symm.trans h) Bool.false_ne_true
      | true =>
          have hactions (u) (hu : (t.job s₁.1.key context root n).transition? = some u) : u.isAction = true := by
            cases hu
            exact haction
          rcases (t.job s₁.1.key context root n).tame_or_setback engine (execute engine depth) s₁.2.executor
            s₁.2 hactions with htame | ⟨_, ⟨⟩, hfailed, hset⟩
          · have hsame {w : World} (h : w.entities = s₁.2.entities) : w₀.Spared φ w :=
              .inl (h.trans huntouched.held.2)
            exact (rest_holds ht n haction htame).mono (fun _ h => h) (fun _ _ h => hsame h.2)
              (fun _ _ h => hsame h.2) fun _ => hsame
          · refine hstarted fun _ => hφ ?_ hfailed
            simp only [ViewM.setback?, offer_outcome haction ho]
            exact hset

end Transition

namespace Process

variable (engine : Engine) (action : String) (context : Context) (p : Process)

/-- The job that the one available transition of the action comes to hand over. -/
def offer : ViewM Job := do
  match ← p.candidates engine ⟨context.user, some action⟩ with
  | [t] => t.offer engine context (some p)
  | _ => throw (.notAllowed action .noMatch)

variable {engine action context p}

theorem offer_setback {start : Start} {v v₁ : View} {w w₁ : World} {t : Transition}
    (h : (p.candidates engine ⟨context.user, some action⟩).outcome v w = (some (.ok [t], v₁), w₁)) :
    (p.offer engine action context).setback? engine start v w =
      (t.offer engine context (some p)).setback? engine start v₁ w₁ := by
  simp only [ViewM.setback?, offer, ViewM.outcome_bind, h]

theorem invokeWith_spares {depth : Nat} {φ : Transition → Prop} {s : View × World} (hp : p.Obeys Op.Harmless)
    (hφ : ∀ t, (p.offer engine action context).setback? engine (Transition.execute engine (depth - 1)) s.1 s.2 =
      some t → t.failed.isSome → φ t) :
    Meets (fun s' => s' = s) (p.invokeWith engine (Transition.execute engine depth) action context)
      (fun _ s' => s.2.Spared φ s'.2) ⟨fun _ s' => s.2.Spared φ s'.2, s.2.Spared φ⟩ := by
  have hstill : Still engine s.1.key (Untouched s.1.key s.2) := Untouched.still
  have hcandidates : Meets (Untouched s.1.key s.2) (p.candidates engine ⟨context.user, some action⟩)
      (fun ts s' => Untouched s.1.key s.2 s' ∧ ∀ t ∈ ts, t ∈ p.allTransitions ∧ t.Fits s'.1)
      ⟨fun _ => Untouched s.1.key s.2, s.2.Spared φ⟩ :=
    p.candidates_meets hstill.viewing.reading engine _ fun _ _ _ h => h
  unfold invokeWith
  refine .bind (((ViewM.outcome_meets (p.candidates engine ⟨context.user, some action⟩) s).both
    hcandidates).mono (fun _ h => ⟨h, h ▸ ⟨⟨rfl, rfl⟩, List.suffix_rfl⟩⟩) (fun _ _ h => h)
    (fun _ _ h => h.2.spared) fun _ h => h.2) fun ts => .point fun s₁ ⟨ho, huntouched, hmem⟩ => ?_
  split
  · rename_i t _
    obtain ⟨hin, -⟩ := hmem t (List.mem_singleton_self t)
    have hroot (q : Process) (h : some p = some q) : q.Obeys Op.Harmless := by
      cases h
      exact hp
    refine .bind (Transition.execute_spares (hp t hin) hroot huntouched fun h => ?_) fun _ => ?_
    · exact hφ t ((offer_setback ho).trans h)
    · refine .bind (ViewM.reread_meets World.Spared.viewing ?_) fun _ => .pure fun _ h => h
      exact fun v w call e _ h _ => h.later rfl (List.suffix_cons _ _)
  · exact .throw fun _ h => h ▸ huntouched.spared
  · exact .throw fun _ h => h ▸ huntouched.spared

end Process

end Workflow
