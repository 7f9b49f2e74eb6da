import Workflow.Proofs.Engine.Obeying
import Workflow.Proofs.Engine.Resolving

/-!
# Custody of flights

A transition in flight is in somebody's hands: in those of a call that has not come to its unlock, or of
a job that waits. A custody says what is true of the world while some flights are in the hands of the
calls that run, and how single changes of the world bear on that. From it follows what starts, jobs,
completions and failures do to the flights, whatever the executor and the faults.
-/

namespace Workflow

/-- What the view remembers as its state is in the store, or known to be stale for the next start. -/
def Faithful (stale : View → Nat → String → Prop) (s : View × World) : Prop :=
  ∀ state, s.1.Recalls state →
    s.2.entities.getField s.1.key = .ok (.str state) ∨ stale s.1 s.2.starts state

theorem Faithful.fresh {stale : View → Nat → String → Prop} (k : StateKey) (w : World) :
    Faithful stale (.fresh k, w) :=
  fun _ ⟨_, h, _⟩ => nomatch h

theorem Reading.faithful {P : View × World → Prop} (hP : Reading P) (ψ : Prop)
    (stale : View → Nat → String → Prop) : Reading fun s => P s ∧ (ψ → Faithful stale s) where
  struck call h := ⟨hP.struck call h.1, h.2⟩
  asked he h := ⟨hP.asked he h.1, h.2⟩
  remembered hnone he h := by
    refine ⟨hP.remembered hnone he h.1, fun _ state hstate => ?_⟩
    obtain ⟨e, hsome, hvalue⟩ := hstate
    cases hsome
    exact .inl (EntityStore.getField_of_find? he hvalue)

/--
While the calls that run have the flights of `hands`, `holds hands` is true of the world. Transitions run
on `keys`. An error may only come up where there is an `excuse`, and leaves flights that may be `blamed`. When
starts are `resolved`, transitions are started only where they were found for a view, which may be `stale`.
-/
structure Custody (engine : Engine) where
  holds : List Flight → World → Prop
  keys : StateKey → Prop
  excuse : World → Prop
  blamed : Flight → Prop
  invokes : Prop
  resolved : Prop
  stale : View → Nat → String → Prop
  excused : ∀ {hands w}, holds hands w →
    (w.faults = [] ∧ ∀ k, keys k → w.entities.Textual k) ∨ excuse w
  lasting : ∀ {w w'}, w.journal <:+ w'.journal → excuse w → excuse w'
  struck : ∀ {hands w} call, holds hands w → holds hands (w.struck call)
  remarked : ∀ {hands w e}, e.isRemark = true → holds hands w → holds hands (w.record e)
  wrote : ∀ {hands w entities key value}, w.entities.setField key value = .ok entities →
    holds hands w → holds hands (w.write entities key value)
  removed : ∀ {hands w} kind id, holds hands w → holds hands (w.remove kind id)
  emitted : ∀ {hands w} e, holds hands w → holds hands (w.emit e)
  started : ∀ {hands w} (s : Started), keys s.key → s.number = w.starts → holds hands w →
    (resolved → s.transition.Fits s.view ∧ Faithful stale (s.view, w)) →
    w.locks.isHeld (s.key.lockKey engine.config.lockPrefix) = false →
    blamed s.flight ∧ holds (s.flight :: hands)
      (((w.lock (s.key.lockKey engine.config.lockPrefix) engine.config.lockTtl).takeOff s.key).record
        (.started s))
  landed : ∀ {hands f w}, holds (f :: hands) w → holds (f :: hands) (w.land f)
  unlocked : ∀ {hands f w}, f ∉ w.flights → holds (f :: hands) w →
    holds hands (w.unlock (f.key.lockKey engine.config.lockPrefix))
  queued : ∀ {hands f w} (job : Job), job.flight? = some f → f ∈ w.flights → holds (f :: hands) w →
    holds hands { w with queue := w.queue ++ [job] }
  pooled : ∀ {hands f w} (job : Job), job.flight? = some f → f ∈ w.flights → holds (f :: hands) w →
    holds hands { w with pool := w.pool ++ [job] }
  taken : ∀ {hands f w} {job : Job} {queue pool}, w.pending.Perm (job :: (queue ++ pool)) →
    job.flight? = some f → holds hands w →
    holds (f :: hands) { w with queue := queue, pool := pool }
  switched : ∀ {hands w} executor, holds hands w → holds hands { w with executor := executor }
  reported : ∀ {hands f w} action error, excuse w → holds (f :: hands) w →
    holds hands (w.emit ⟨f.key, action, .continuationFailed error⟩)
  /-- Where commands start transitions, they do so on any field, and nothing is made of their errors. -/
  everywhere : invokes → ∀ k, keys k
  pardoned : invokes → ∀ w, excuse w
  dropped : invokes → ∀ {hands f w}, holds (f :: hands) w → holds hands w

namespace Custody

variable {engine : Engine} (I : Custody engine)

def Allows : Op → Prop :=
  Op.Allowed I.invokes

/--
The flights of `hands` are with the calls that run, and each job that waits has one of its own. When `φ` was
true earlier, there was an excuse.
-/
structure Base (φ : Prop) (hands : List Flight) (w : World) : Prop where
  holds : I.holds hands w
  past : φ → I.excuse w
  jobs : ∀ job ∈ w.pending, ∃ f, job.Carries I.Allows I.keys f

/-- The same, as seen through a view of the field. -/
structure Own (φ : Prop) (hands : List Flight) (k : StateKey) (s : View × World) : Prop where
  base : I.Base φ hands s.2
  onKey : s.1.key = k
  key : I.keys k
  memo : (s.1.memo.isSome → ∃ state, s.1.Recalls state) ∨ I.excuse s.2

/-- An error: nothing is left in the hands of the call, or one flight, with an excuse. -/
def Stuck (φ : Prop) (hands : List Flight) (k : StateKey) (s : View × World) : Prop :=
  I.Own φ hands k s ∨ ∃ f, f.key = k ∧ I.blamed f ∧ I.excuse s.2 ∧ I.Own φ (f :: hands) k s

/-- An error before the unlock: the flight is still in the hands of the call. -/
def Kept (φ : Prop) (f : Flight) (hands : List Flight) (k : StateKey) (s : View × World) : Prop :=
  I.excuse s.2 ∧ I.Own φ (f :: hands) k s

def Chosen (t : Transition) (s : View × World) : Prop :=
  I.resolved → t.Fits s.1 ∧ Faithful I.stale s

def Cut (w : World) : Prop :=
  ∃ hands, I.holds hands w

variable {I} {φ : Prop} {hands : List Flight} {f : Flight} {k : StateKey}

namespace Base

theorem next {hands' : List Flight} {w w' : World} (h : I.Base φ hands w) (hholds : I.holds hands' w')
    (hjournal : w.journal <:+ w'.journal) (hpending : ∀ j ∈ w'.pending, j ∈ w.pending) :
    I.Base φ hands' w' :=
  ⟨hholds, fun hφ => I.lasting hjournal (h.past hφ), fun j hj => h.jobs j (hpending j hj)⟩

theorem noted {hands' : List Flight} {w w' : World} {entry : Entry} (h : I.Base φ hands w)
    (hholds : I.holds hands' (w'.record entry)) (hjournal : w'.journal = w.journal)
    (hpending : w'.pending = w.pending) : I.Base φ hands' (w'.record entry) :=
  h.next hholds (hjournal ▸ List.suffix_cons _ _) fun _ hj => hpending ▸ hj

theorem struck {w : World} (call : StoreCall) (h : I.Base φ hands w) : I.Base φ hands (w.struck call) :=
  h.next (I.struck call h.holds) List.suffix_rfl fun _ hj => hj

end Base

namespace Own

theorem memo_lasting {s : View × World} {w : World} (h : I.Own φ hands k s)
    (hw : s.2.journal <:+ w.journal) :
    (s.1.memo.isSome → ∃ state, s.1.Recalls state) ∨ I.excuse w :=
  h.memo.imp_right (I.lasting hw)

theorem next {hands' : List Flight} {v : View} {w w' : World} (h : I.Own φ hands k (v, w))
    (hholds : I.holds hands' w') (hjournal : w.journal <:+ w'.journal)
    (hpending : w'.pending = w.pending) : I.Own φ hands' k (v, w') :=
  ⟨h.base.next hholds hjournal fun _ hj => hpending ▸ hj, h.onKey, h.key, h.memo_lasting hjournal⟩

theorem noted {hands' : List Flight} {v : View} {w w' : World} {entry : Entry}
    (h : I.Own φ hands k (v, w)) (hholds : I.holds hands' (w'.record entry))
    (hjournal : w'.journal = w.journal) (hpending : w'.pending = w.pending) :
    I.Own φ hands' k (v, w'.record entry) :=
  h.next hholds (hjournal ▸ List.suffix_cons _ _) hpending

theorem reread {v : View} {w : World} {e : Entity} (h : I.Own φ hands k (v, w))
    (he : w.entities.find? v.key.kind v.key.id = some e) : I.Own φ hands k (v.remember e, w) := by
  refine ⟨h.base, h.onKey, h.key, (I.excused h.base.holds).imp_left fun hwell _ => ?_⟩
  obtain ⟨e', state, he', hstate⟩ := hwell.2 k h.key
  obtain rfl : v.key = k := h.onKey
  cases Option.some.inj (he.symm.trans he')
  exact ⟨state, e, rfl, hstate⟩

theorem writing : Writing (I.Own φ hands k) where
  struck call h := ⟨h.base.struck call, h.onKey, h.key, h.memo_lasting List.suffix_rfl⟩
  remarked he h := h.noted (I.remarked he h.base.holds) rfl rfl
  reread he h := h.reread he
  wrote hset h := h.noted (I.wrote hset h.base.holds) rfl rfl
  emitted e h := h.noted (I.emitted e h.base.holds) rfl rfl

theorem takes {X : Exits (View × World)} (hX : X.Back (I.Kept φ f hands k)) :
    X.Takes (I.Own φ (f :: hands) k) := by
  intro v w call e _ h hsick
  refine hX e _ ⟨?_, writing.reading.failing call e h⟩
  refine I.lasting (w := w) (List.suffix_cons _ _) ((I.excused h.base.holds).resolve_left fun hwell => ?_)
  obtain ⟨e, state, he, -⟩ := hwell.2 k h.key
  obtain rfl : v.key = k := h.onKey
  exact hsick ⟨hwell.1, by rw [he]; rfl⟩

theorem stateless {s : View × World} (h : I.Own φ (f :: hands) k s) (hsome : s.1.memo.isSome)
    (hno : ¬ ∃ state, s.1.Recalls state) : I.Kept φ f hands k s :=
  ⟨h.memo.resolve_left fun hmemo => hno (hmemo hsome), h⟩

end Own

/-! ## Fresh views -/

theorem Base.fresh {w : World} (h : I.Base φ hands w) (hk : I.keys k) : I.Own φ hands k (.fresh k, w) :=
  ⟨h, rfl, hk, .inl nofun⟩

/-! ## Commands -/

/-- What is known of starts from inside a run: an error leaves at most one flight. -/
def Minds (start : Start) : Prop :=
  ∀ ⦃φ hands k t root⦄ context, t.Obeys I.Allows → (∀ p, root = some p → p.Obeys I.Allows) →
    Meets (fun s => I.Own φ hands k s ∧ I.Chosen t s) (start t context root) (fun _ => I.Own φ hands k)
      ⟨fun _ => I.Stuck φ hands k, I.Cut⟩

section

variable {start : Start} (hstart : I.Minds start)

include hstart

theorem invokeWith_meets {p : Process} (hp : p.Obeys I.Allows) (action : String) (context : Context) :
    Meets (fun s => I.Own φ hands k s ∧ (I.resolved → Faithful I.stale s))
      (p.invokeWith engine start action context) (fun _ => I.Own φ hands k)
      ⟨fun _ => I.Stuck φ hands k, I.Cut⟩ := by
  have hback : (⟨fun _ => I.Stuck φ hands k, I.Cut⟩ : Exits (View × World)).Back (I.Own φ hands k) :=
    fun _ _ h => .inl h
  unfold Process.invokeWith
  refine .bind (p.candidates_meets (Own.writing.reading.faithful I.resolved I.stale) engine _
    fun _ _ _ h => hback _ _ h.1) fun ts => ?_
  split
  · rename_i t
    refine .point fun s hs => ?_
    obtain ⟨hmem, hfits⟩ := hs.2 t (List.mem_singleton_self t)
    refine .bind ((hstart context (hp t hmem) fun _ h => by cases h; exact hp).pre
      fun _ h => h ▸ ⟨hs.1.1, fun hresolved => ⟨hfits, hs.1.2 hresolved⟩⟩) fun _ => ?_
    refine .bind (ViewM.reread_meets Own.writing.toViewing (hback.takes Own.writing.reading)) fun _ => ?_
    exact .pure fun _ h => h
  · exact .throw fun _ h => hback _ _ h.1.1
  · exact .throw fun _ h => hback _ _ h.1.1

theorem invokeNamed_meets (hengine : engine.Obeys I.Allows) (hinvokes : I.invokes) (process : String)
    (key : StateKey) (action : String) (context : Context) :
    Meets (I.Base φ hands) (Op.invokeNamed engine start process key action context)
      (fun _ => I.Base φ hands) (.only I.Cut) := by
  unfold Op.invokeNamed
  split
  · rename_i p hp
    have hmem : (process, p) ∈ engine.processes := by
      obtain ⟨_, _, heq, -⟩ := List.lookup_eq_some_iff.1 hp
      exact heq ▸ List.mem_append_right _ (List.mem_cons_self ..)
    refine ((ViewM.onFresh_meets (invokeWith_meets hstart (hengine _ hmem) action context)).pre
      fun w h => ⟨h.fresh (I.everywhere hinvokes key), fun _ => .fresh key w⟩).post fun r w h => ?_
    obtain ⟨v, h⟩ := h
    cases r with
    | ok _ => exact h.base
    | error _ =>
        rcases h with h | ⟨f, -, -, -, h⟩
        · exact h.base
        · exact h.base.next (I.dropped hinvokes h.base.holds) List.suffix_rfl fun _ hj => hj
  · exact .pure fun _ h => h

theorem run_meets (hengine : engine.Obeys I.Allows) (op : Op) (hop : I.Allows op) {E} :
    Meets (I.Own φ hands k) (op.run engine start) (fun _ => I.Own φ hands k) ⟨E, I.Cut⟩ := by
  cases op with
  | lock | unlock => cases hop
  | removeEntity =>
      refine .bind Op.getView_meets fun v => Op.ofEngine_meets fun v' => EngineM.modify_meets fun w h => ?_
      exact h.1.noted (I.removed _ _ h.1.base.holds) rfl rfl
  | invoke process key action data =>
      refine .bind (M := fun _ => I.Own φ hands k) (fun c => Worldly.pure (m := FieldM) fun _ h => h)
        fun c => Op.ofEngine_meets fun v => .point fun w hw => ?_
      refine ((invokeNamed_meets hstart hengine hop process key action _).pre
        fun _ h => h ▸ hw.base).post fun _ w' h => ?_
      exact ⟨h, hw.onKey, hw.key, .inr (I.pardoned hop w')⟩
  | _ => exact Op.run_meets Own.writing.toActing _ rfl

end

/-! ## Unlocking -/

section

variable {X : Exits (View × World)} (t : Transition)

theorem land_meets :
    Meets (I.Own φ (f :: hands) k) (ViewM.ofEngine (EngineM.land f) : ViewM Unit)
      (fun _ s => I.Own φ (f :: hands) k s ∧ f ∉ s.2.flights) X := by
  refine ViewM.ofEngine_meets fun v => EngineM.modify_meets fun w h => ?_
  exact ⟨h.noted (I.landed h.base.holds) rfl rfl, by simp [World.land, World.record]⟩

theorem unlock_meets (hX : X.Back (I.Kept φ f hands k)) (hf : f.key = k) :
    Meets (fun s => I.Own φ (f :: hands) k s ∧ f ∉ s.2.flights) (ViewM.unlock engine)
      (fun _ => I.Own φ hands k) X := by
  refine .point fun s hs => .bindKnown (ViewM.lockKey_meets engine s) ?_
  refine ViewM.ofCall_meets fun v => CallM.release_meets ?_ ?_
  · intro w m h hw
    cases h
    exact Own.takes hX v w .release _ rfl hs.1 fun h => hw h.1
  · intro w h
    cases h
    have h := Own.writing.struck .release hs.1
    obtain rfl : v.key = k := h.onKey
    refine h.noted ?_ rfl rfl
    have hdone := I.unlocked (w := w.struck .release) hs.2 (I.struck .release hs.1.base.holds)
    rw [hf] at hdone
    exact hdone

theorem release_meets (hX : X.Back (I.Kept φ f hands k)) (hf : f.key = k) :
    Meets (I.Own φ (f :: hands) k) (t.release engine (some f.number)) (fun _ => I.Own φ hands k) X := by
  unfold Transition.release
  refine .point fun s hs => .bindKnown (ViewM.key_meets s) ?_
  have hkey : (⟨f.number, s.1.key⟩ : Flight) = f := by rw [hs.onKey, ← hf]
  rw [hkey]
  refine .bind (land_meets.pre fun _ h => h ▸ hs) fun _ => ?_
  exact .bind (unlock_meets hX hf) fun _ => t.report_meets Own.writing _

end

/-! ## Ends of transitions -/

section

variable {start : Start} (hstart : I.Minds start) {t : Transition}

include hstart

/-- What is gone on with leaves nothing, or the flight of the transition that was started. -/
theorem proceed_meets {p : Process} (hp : p.Obeys I.Allows) (next : String) (context : Context) :
    Meets (fun s => I.Own φ hands k s ∧ (I.resolved → Faithful I.stale s))
      (t.proceed engine start next context p) (fun _ => I.Own φ hands k)
      ⟨fun _ => I.Stuck φ hands k, I.Cut⟩ := by
  refine .bind (p.candidates_meets (Own.writing.reading.faithful I.resolved I.stale) engine _
    fun _ _ _ h => .inl h.1) fun ts => ?_
  split
  · rename_i u
    refine .point fun s hs => ?_
    obtain ⟨hmem, hfits⟩ := hs.2 u (List.mem_singleton_self u)
    exact (hstart _ (hp u hmem) fun _ h => by cases h; exact hp).pre
      fun _ h => h ▸ ⟨hs.1.1, fun hresolved => ⟨hfits, hs.1.2 hresolved⟩⟩
  · exact (t.report_meets Own.writing _).pre fun _ h => h.1.1

/-- An error of the transition that is gone on with is reported, and nobody has its flight any more. -/
theorem chain_meets {root : Option Process} (hroot : ∀ p, root = some p → p.Obeys I.Allows)
    (next : String) (context : Context) {E} :
    Meets (I.Own φ hands k) (t.chain engine start next context root) (fun _ s => I.Base φ hands s.2)
      ⟨E, I.Cut⟩ := by
  cases root with
  | none => exact (t.report_meets Own.writing _).post fun _ _ h => h.base
  | some p =>
      refine .point fun s hs => ?_
      obtain rfl : s.1.key = k := hs.onKey
      have hproceed : Meets (fun s' => I.Own φ hands s.1.key s' ∧ (I.resolved → Faithful I.stale s'))
          (t.proceed engine start next context p) (fun _ => I.Own φ hands s.1.key)
          ⟨fun _ => I.Stuck φ hands s.1.key, I.Cut⟩ := proceed_meets hstart (hroot p rfl) next context
      refine (t.chain_steps s (hproceed.mono ?_ (fun _ _ h => h.base) (fun _ _ h => h) fun _ h => h) ?_).post
        fun _ _ h => h.2
      · rintro _ rfl
        exact ⟨hs.base.fresh hs.key, fun _ => .fresh s.1.key _⟩
      · -- The event is all that comes of the error, also for a flight that was left.
        rintro e s' (h | ⟨f, hf, -, he, h⟩)
        · exact h.base.noted (I.emitted _ h.base.holds) rfl rfl
        · exact h.base.noted (hf ▸ I.reported _ _ he h.base.holds) rfl rfl

variable (hengine : engine.Obeys I.Allows) (ht : t.Obeys I.Allows) (hf : f.key = k)

include hengine ht hf

theorem succeed_meets (context : Context) :
    Meets (I.Own φ (f :: hands) k) (t.succeed engine start context (some f.number))
      (fun _ => I.Own φ hands k) ⟨fun _ => I.Kept φ f hands k, I.Cut⟩ :=
  t.succeed_meets Own.writing (Own.takes fun _ _ h => h) (release_meets t (fun _ _ h => h) hf) Own.writing
    (fun op hop => run_meets hstart hengine op hop) ht.callbacks context

theorem complete_meets {root : Option Process} (hroot : ∀ p, root = some p → p.Obeys I.Allows)
    (context : Context) :
    Meets (I.Own φ (f :: hands) k) (t.complete engine start context root (some f.number))
      (fun _ s => I.Base φ hands s.2) ⟨fun _ => I.Kept φ f hands k, I.Cut⟩ := by
  refine .bind (succeed_meets hstart hengine ht hf context) fun context => ?_
  split
  · exact chain_meets hstart hroot _ context
  · exact .pure fun _ h => h.base

theorem fail_meets (failure : CommandFailure) (context : Context) :
    Meets (I.Own φ (f :: hands) k) (t.fail engine start failure context (some f.number))
      (fun _ s => I.Base φ hands s.2) ⟨fun _ => I.Kept φ f hands k, I.Cut⟩ :=
  Meets.post (t.fail_meets Own.writing (Own.takes fun _ _ h => h) (release_meets t (fun _ _ h => h) hf)
    Own.writing (fun op hop => run_meets hstart hengine op hop) ht.failureCallbacks failure context)
    fun _ _ h => h.base

omit hstart hengine ht in
theorem abort_meets (previous : Option String) (reason : String) :
    Meets (I.Own φ (f :: hands) k) (t.abort engine previous reason (some f.number))
      (fun _ => I.Own φ hands k) ⟨fun _ => I.Kept φ f hands k, I.Cut⟩ :=
  t.abort_meets Own.writing (Own.takes fun _ _ h => h) (release_meets t (fun _ _ h => h) hf) Own.writing
    previous reason

end

/-! ## Jobs -/

def Ran (I : Custody engine) (φ : Prop) (f : Flight) (hands : List Flight) :
    Except EngineError Unit → World → Prop
  | .ok _ => I.Base φ hands
  | .error _ => fun w => I.excuse w ∧ I.Base φ (f :: hands) w

def Handed (I : Custody engine) (φ : Prop) (f : Flight) (hands : List Flight) :
    Except DispatchError Unit → World → Prop
  | .ok _ => I.Base φ hands
  | .error (.continuation _) => fun w => I.excuse w ∧ I.Base φ (f :: hands) w
  | .error (.rejected _) => I.Base φ (f :: hands)

section

variable {start : Start} (hstart : I.Minds start) (hengine : engine.Obeys I.Allows) {job : Job}
  (hjob : job.Carries I.Allows I.keys f)

include hstart hengine hjob

theorem job_meets : Meets (I.Base φ (f :: hands)) (job.run engine start) (I.Ran φ f hands) (.only I.Cut) := by
  have hsteps : Meets (I.Own φ (f :: hands) job.key) (Command.runAll engine start job.steps)
      (fun _ => I.Own φ (f :: hands) job.key) ⟨fun _ _ => True, I.Cut⟩ :=
    Command.runAll_meets Own.writing.toViewing (fun op hop => run_meets hstart hengine op hop) job.steps hjob.steps
  have hended {m : ViewM Unit} (hm : Meets (I.Own φ (f :: hands) job.key) m (fun _ s => I.Base φ hands s.2)
      ⟨fun _ => I.Kept φ f hands job.key, I.Cut⟩) :
      Meets (I.Base φ (f :: hands)) (ViewM.onFresh job.key m) (I.Ran φ f hands) (.only I.Cut) := by
    refine ((ViewM.onFresh_meets hm).pre fun w h => h.fresh hjob.key).post fun r w ⟨v, h⟩ => ?_
    cases r with
    | ok _ => exact h
    | error _ => exact ⟨h.1, h.2.base⟩
  unfold Job.run
  refine .bind (m := EngineM) (M := fun _ => I.Base φ (f :: hands)) ?_ fun r => ?_
  · exact Meets.mono (m := EngineM) (hsteps job.context (View.fresh job.key))
      (fun w h => h.fresh hjob.key) (fun _ _ h => h.base) (fun _ _ h => h) fun _ h => h
  obtain ⟨⟨failure, context⟩, _⟩ := r
  obtain ⟨t, root, hcont, hf⟩ := Job.finish_of_flight hjob.flight
  have ht := hjob.transition _ t root hcont
  have hkey : f.key = job.key := by rw [hf]
  rw [hcont]
  cases failure with
  | none =>
      exact hended (complete_meets hstart hengine ht hkey (fun p hp => hjob.root _ t p (hp ▸ hcont)) context)
  | some failure => exact hended (fail_meets hstart hengine ht hkey failure context)

/-- An error is reported, and nobody has the flight of the job any more. -/
theorem runDetached_meets :
    Meets (I.Base φ (f :: hands)) (job.runDetached engine start) (fun _ => I.Base φ hands) (.only I.Cut) := by
  have hkey : f.key = job.key := by
    obtain ⟨-, -, -, hf⟩ := Job.finish_of_flight hjob.flight
    rw [hf]
  unfold Job.runDetached
  refine .bind (m := EngineM) (job_meets hstart hengine hjob) fun r => ?_
  cases r with
  | ok _ => exact .pure fun _ h => h
  | error e =>
      refine EngineM.modify_meets fun w h => ?_
      exact h.2.noted (hkey ▸ I.reported _ _ h.1 h.2.holds) rfl rfl

omit hstart hengine in
/-- A job that is left to wait takes its flight out of the hands of the call. -/
theorem Base.waits {w w' : World} (h : I.Base φ (f :: hands) w) (hholds : I.holds hands w')
    (hjournal : w'.journal = w.journal) (hpending : ∀ j ∈ w'.pending, j ∈ w.pending ∨ j = job) :
    I.Base φ hands w' := by
  refine ⟨hholds, fun hφ => I.lasting (hjournal ▸ List.suffix_rfl) (h.past hφ), fun j hj => ?_⟩
  cases hpending j hj with
  | inl hj => exact h.jobs j hj
  | inr heq => exact ⟨f, heq ▸ hjob⟩

theorem handTo_meets (executor : Executor) :
    Meets (fun w => I.Base φ (f :: hands) w ∧ f ∈ w.flights) (job.handTo engine start executor)
      (I.Handed φ f hands) (.only I.Cut) := by
  induction executor with
  | inline =>
      refine .bind (m := EngineM) ((job_meets hstart hengine hjob).pre fun w h => h.1) fun r => ?_
      cases r with
      | ok _ => exact .pure fun _ h => h
      | error e => exact .pure fun _ h => h
  | detaching =>
      refine .bind (m := EngineM) ((runDetached_meets hstart hengine hjob).pre fun w h => h.1) ?_
      exact fun _ => .pure fun _ h => h
  | queue =>
      refine .bind (m := EngineM) (M := fun _ => I.Base φ hands) ?_ fun _ => .pure fun _ h => h
      refine EngineM.modify_meets fun w h => ?_
      refine h.1.waits hjob (I.queued job hjob.flight h.2 h.1.holds) rfl fun j hj => ?_
      simp only [Scene.pending, List.mem_append, List.mem_singleton] at hj ⊢
      exact or_right_comm.1 hj
  | pool =>
      refine .bind (m := EngineM) (M := fun _ => I.Base φ hands) ?_ fun _ => .pure fun _ h => h
      refine EngineM.modify_meets fun w h => ?_
      refine h.1.waits hjob (I.pooled job hjob.flight h.2 h.1.holds) rfl fun j hj => ?_
      simp only [Scene.pending, List.mem_append, List.mem_singleton] at hj ⊢
      exact or_assoc.2 hj
  | rejecting reason => exact .pure fun _ h => h.1
  | varying first rest ihfirst ihrest =>
      refine .bind (m := EngineM) (M := fun _ w => I.Base φ (f :: hands) w ∧ f ∈ w.flights) ?_
        fun _ => ihfirst
      refine EngineM.modify_meets fun w h => ⟨?_, h.2⟩
      exact h.1.next (I.switched rest h.1.holds) List.suffix_rfl fun _ hj => hj

theorem dispatch_meets :
    Meets (fun w => I.Base φ (f :: hands) w ∧ f ∈ w.flights) (job.dispatch engine start)
      (I.Handed φ f hands) (.only I.Cut) := by
  refine .bind (m := EngineM) EngineM.get_meets fun w => ?_
  exact (handTo_meets hstart hengine hjob _).pre fun _ h => h.2

end

end Custody

end Workflow
