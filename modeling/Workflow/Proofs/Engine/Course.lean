import Workflow.Proofs.Engine.Blocks
import Workflow.Proofs.Engine.Obeying
import Workflow.Proofs.Engine.Outcomes
import Workflow.Proofs.Engine.Resolving

/-!
# The course of transitions

From its lock to its end a transition goes through the same steps whichever way its side effects are run. A
course says what is true of the world while some transitions are under way, with what each has told so far,
and how each step bears on that. From it follows what holds of starts, jobs, completions and failures, and of
the context that travels with them, whatever commands, executors and faults do.
-/

namespace Workflow

/-- One transition is available from `s`, and its start ends with the error in `s'`. -/
def Process.StartFails (engine : Engine) (start : Start) (action : String) (context : Context) (p : Process)
    (s : View × World) (e : EngineError) (s' : View × World) : Prop :=
  ∃ t v w, (p.candidates engine ⟨context.user, some action⟩).outcome s.1 s.2 = (some (.ok [t], v), w) ∧
    (start t context (some p)).outcome v w = (some (.error e, s'.1), s'.2)

/-- A transition under way, and what it has told so far. -/
structure Leg where
  flight : Flight
  transition : Transition
  told : List EventKind

namespace Leg

/-- The same transition when it has told more. -/
abbrev after (l : Leg) (kinds : List EventKind) : Leg :=
  { l with told := l.told ++ kinds }

def event (l : Leg) (kind : EventKind) : Event :=
  ⟨l.flight.key, l.transition.action, kind⟩

/-- All was told that the transition has to tell before its side effects are handed over. -/
def Opened (l : Leg) : Prop :=
  ∃ o : Opening, l.told = o.kinds

def Over (l : Leg) : Prop :=
  ∃ (o : Opening) (e : Ending), l.told = o.kinds ++ e.kinds

@[simp] theorem after_nil (l : Leg) : l.after [] = l := by
  simp [after]

@[simp] theorem after_after (l : Leg) (kinds kinds' : List EventKind) :
    (l.after kinds).after kinds' = l.after (kinds ++ kinds') := by
  simp [after]

theorem Opened.locked {l : Leg} (h : l.Opened) : .unlocked ∉ l.told := by
  obtain ⟨⟨entered⟩, htold⟩ := h
  rw [htold]
  cases entered <;> simp [Opening.kinds, Change.kind]

theorem Over.unlocked {l : Leg} (h : l.Over) : .unlocked ∈ l.told := by
  obtain ⟨o, ending, htold⟩ := h
  rw [htold]
  cases ending <;> simp [Ending.kinds]

theorem over_after {l : Leg} (h : l.Opened) (e : Ending) : (l.after e.kinds).Over := by
  obtain ⟨o, ho⟩ := h
  exact ⟨o, e, by rw [after, ho]⟩

end Leg

theorem Scene.pending_queued (s : Scene) (job : Job) :
    ({ s with queue := s.queue ++ [job] } : Scene).pending.Perm (job :: s.pending) := by
  rw [pending, List.append_assoc, List.singleton_append]
  exact List.perm_middle

theorem Scene.pending_pooled (s : Scene) (job : Job) :
    ({ s with pool := s.pool ++ [job] } : Scene).pending.Perm (job :: s.pending) := by
  rw [pending, ← List.append_assoc]
  exact List.perm_append_singleton ..

/-- The job is that of a transition under way, in a context that may travel. -/
structure Job.Bears (allows : Op → Prop) (keys : StateKey → Prop) (travels : Context → Prop)
    (roots : Option Process → Prop) (leg : Leg) (job : Job) : Prop
    extends job.Carries allows keys leg.flight where
  opened : leg.Opened
  context : travels job.context
  finish : ∃ root, job.continuation = .finish leg.flight.number leg.transition root ∧ roots root

/--
While the transitions of `legs` are under way in the calls that run, the latest first, `holds legs` is true of
the world. Transitions run on `keys`, in contexts that travel, and go on in `roots`. Errors of store calls
come up where there is an `excuse`; whether jobs are ever run or refused is up to the `executors`. One
transition is under way at a time, unless it `nests`.
-/
structure Course (engine : Engine) where
  holds : List Leg → World → Prop
  allows : Op → Prop
  keys : StateKey → Prop
  travels : Context → Prop
  roots : Option Process → Prop
  executors : Executor → Prop
  excuse : World → Prop
  runs : Prop
  refuses : Prop
  nests : Prop
  lasting : ∀ {w w'}, w.journal <:+ w'.journal → excuse w → excuse w'
  excused : ∀ {legs w}, holds legs w →
    (w.faults = [] ∧ ∀ k, keys k → w.entities.Textual k) ∨ excuse w
  inserted : ∀ c name value, travels c → travels (c.insert name value)
  failing : ∀ c failure, travels c → travels (c.withFailure failure)
  resumed : ∀ c, travels c → travels c.withoutFailure
  varied : ∀ {first rest}, executors (.varying first rest) → executors first ∧ executors rest
  running : executors .inline ∨ executors .detaching → runs
  rejecting : ∀ {reason}, executors (.rejecting reason) → refuses
  executor : ∀ {legs w}, holds legs w → executors w.executor
  struck : ∀ {legs w} call, holds legs w → holds legs (w.struck call)
  remarked : ∀ {legs w e}, e.isRemark = true → holds legs w → holds legs (w.record e)
  wrote : ∀ {legs w entities key value}, w.entities.setField key value = .ok entities →
    holds legs w → holds legs (w.write entities key value)
  removed : ∀ {legs w} kind id, holds legs w → holds legs (w.remove kind id)
  switched : ∀ {legs w} executor, executors executor → holds legs w →
    holds legs { w with executor := executor }
  turnedAway : ∀ {legs w k} action, keys k → holds legs w → holds legs (w.emit ⟨k, action, .lockRejected⟩)
  started : ∀ {legs w} (s : Started) (root : Option Process), keys s.key → s.number = w.starts →
    travels s.context → roots root → (∀ p, root = some p → p.Picks s.context.user s.view s.transition) →
    w.locks.isHeld (s.key.lockKey engine.config.lockPrefix) = false → (legs = [] ∨ nests) → holds legs w →
    holds (⟨s.flight, s.transition, []⟩ :: legs)
      (((w.lock (s.key.lockKey engine.config.lockPrefix) engine.config.lockTtl).takeOff s.key).record
        (.started s))
  told : ∀ {leg legs w} kind, kind ≠ .lockRejected → kind ≠ .unlocked → holds (leg :: legs) w →
    holds (leg.after [kind] :: legs) (w.emit (leg.event kind))
  landed : ∀ {leg legs w}, holds (leg :: legs) w → holds (leg :: legs) (w.land leg.flight)
  unlocked : ∀ {leg legs w}, holds (leg :: legs) w →
    holds (leg.after [.unlocked] :: legs)
      ((w.unlock (leg.flight.key.lockKey engine.config.lockPrefix)).emit (leg.event .unlocked))
  ended : ∀ {leg legs w}, leg.Over → holds (leg :: legs) w → holds legs w
  queued : ∀ {leg legs w} (job : Job), job.Bears allows keys travels roots leg → executors .queue →
    holds (leg :: legs) w → holds legs { w with queue := w.queue ++ [job] }
  pooled : ∀ {leg legs w} (job : Job), job.Bears allows keys travels roots leg → executors .pool →
    holds (leg :: legs) w → holds legs { w with pool := w.pool ++ [job] }
  reported : ∀ {legs w k} action error, keys k → runs → excuse w ∨ refuses → holds legs w →
    holds legs (w.emit ⟨k, action, .continuationFailed error⟩)
  abandoned : ∀ {leg legs w} action e, runs → excuse w → w.JustFailed e ∨ roots none → holds (leg :: legs) w →
    holds legs (w.emit ⟨leg.flight.key, action, .continuationFailed e.message⟩)
  /-- Where commands deal with locks and start transitions. -/
  acquired : allows .lock → ∀ {legs w k}, keys k →
    w.locks.isHeld (k.lockKey engine.config.lockPrefix) = false → holds legs w →
    holds legs (w.lock (k.lockKey engine.config.lockPrefix) engine.config.lockTtl)
  freed : allows .unlock → ∀ {legs w k}, keys k → holds legs w →
    holds legs (w.unlock (k.lockKey engine.config.lockPrefix))
  invoked : ∀ {process key action data}, allows (.invoke process key action data) → nests ∧ keys key ∧
    (∀ c, travels c) ∧ (∀ p, roots (some p)) ∧ ∀ {leg legs w}, holds (leg :: legs) w → holds legs w

namespace Course

variable {engine : Engine} (I : Course engine)

/-- What lasts as long as the journal grows. -/
def Lasting (L : World → Prop) : Prop :=
  ∀ ⦃w w' : World⦄, w.journal <:+ w'.journal → L w → L w'

structure Base (L : World → Prop) (legs : List Leg) (w : World) : Prop where
  holds : I.holds legs w
  lasts : L w
  depth : legs.length ≤ 1 ∨ I.nests

/-- A view that remembers an entity remembers a state, or is excused. -/
def Past (L : World → Prop) (v : View) (w : World) : Prop :=
  L w ∧ ((v.memo.isSome → ∃ state, v.Recalls state) ∨ I.excuse w)

/-- The same, as seen through a view of the field. -/
structure Own (L : World → Prop) (legs : List Leg) (k : StateKey) (s : View × World) : Prop where
  onKey : s.1.key = k
  key : I.keys k
  base : I.Base (I.Past L s.1) legs s.2

/-- The error of a store call. -/
structure Sick (L : World → Prop) (legs : List Leg) (k : StateKey) (e : EngineError) (s : View × World) :
    Prop where
  ofStore : e.isOfStore = true
  excuse : I.excuse s.2
  own : I.Own L legs k s

/-- A store call has just failed; or else the view may have remembered no state. -/
def Caused (e : EngineError) (w : World) : Prop :=
  w.JustFailed e ∨ I.roots none

/-- The view remembers a state, as it does wherever a transition was found in a process. -/
def Informed (s : View × World) : Prop :=
  (∃ state, s.1.Recalls state) ∨ I.roots none

/-- The error of a store call before the transition has come to its unlock. -/
def Kept (L : World → Prop) (f : Flight) (legs : List Leg) (k : StateKey) (e : EngineError)
    (s : View × World) : Prop :=
  ∃ leg, leg.flight = f ∧ I.Caused e s.2 ∧ I.Sick L (leg :: legs) k e s

/-- The error of a start: nothing is under way, or the transition with that number. -/
def Stuck (L : World → Prop) (legs : List Leg) (k : StateKey) (number : Nat) (free : Prop) (e : EngineError)
    (s : View × World) : Prop :=
  (I.Own L legs k s ∧ (free → I.excuse s.2 ∨ I.refuses)) ∨ I.Kept L ⟨number, k⟩ legs k e s

def Cut (L : World → Prop) (w : World) : Prop :=
  (∃ legs, I.holds legs w) ∧ L w

variable {I} {L : World → Prop} {legs legs' : List Leg} {leg : Leg} {k : StateKey}

theorem Past.lasting (hL : Lasting L) (v : View) : Lasting (I.Past L v) :=
  fun _ _ hjournal h => ⟨hL hjournal h.1, h.2.imp_right (I.lasting hjournal)⟩

theorem Cut.of_past {v : View} {w : World} (h : I.Cut (I.Past L v) w) : I.Cut L w :=
  ⟨h.1, h.2.1⟩

theorem Base.next {w w' : World} (hL : Lasting L) (h : I.Base L legs w) (hholds : I.holds legs' w')
    (hjournal : w.journal <:+ w'.journal) (hlegs : legs'.length ≤ legs.length := by simp) :
    I.Base L legs' w' :=
  ⟨hholds, hL hjournal h.lasts, h.depth.imp_left (Nat.le_trans hlegs)⟩

theorem Base.dropped {w : World} (h : I.Base L (leg :: legs) w) (hholds : I.holds legs w) : I.Base L legs w :=
  ⟨hholds, h.lasts, h.depth.imp_left Nat.le_of_succ_le⟩

/-- Once the transition under way is over, another may be started. -/
theorem Base.alone {w : World} (h : I.Base L (leg :: legs) w) : legs = [] ∨ I.nests :=
  h.depth.imp_left fun h => List.length_eq_zero_iff.1 (Nat.le_zero.1 (Nat.le_of_succ_le_succ h))

theorem Base.cut {w : World} (h : I.Base L legs w) : I.Cut L w :=
  ⟨⟨legs, h.holds⟩, h.lasts⟩

theorem Base.fresh {w : World} (h : I.Base L legs w) (hk : I.keys k) : I.Own L legs k (.fresh k, w) :=
  ⟨rfl, hk, h.holds, ⟨h.lasts, .inl nofun⟩, h.depth⟩

theorem Informed.reading : Reading I.Informed where
  struck _ h := h
  asked _ h := h
  remembered hnone _ h := h.imp_left fun ⟨_, _, hsome, _⟩ => nomatch hnone.symm.trans hsome

namespace Own

theorem holds {s : View × World} (h : I.Own L legs k s) : I.holds legs s.2 :=
  h.base.holds

theorem world {s : View × World} (h : I.Own L legs k s) : I.Base L legs s.2 :=
  ⟨h.base.holds, h.base.lasts.1, h.base.depth⟩

theorem lookup {v : View} {w : World} (h : I.Own L legs k (v, w)) : v.key = k :=
  h.onKey

theorem next {v : View} {w w' : World} (hL : Lasting L) (h : I.Own L legs k (v, w))
    (hholds : I.holds legs' w') (hjournal : w.journal <:+ w'.journal)
    (hlegs : legs'.length ≤ legs.length := by simp) : I.Own L legs' k (v, w') :=
  ⟨h.onKey, h.key, h.base.next (Past.lasting hL v) hholds hjournal hlegs⟩

theorem noted {v : View} {w w' : World} {entry : Entry} (hL : Lasting L) (h : I.Own L legs k (v, w))
    (hholds : I.holds legs' (w'.record entry)) (hjournal : w'.journal = w.journal := by rfl)
    (hlegs : legs'.length ≤ legs.length := by simp) : I.Own L legs' k (v, w'.record entry) :=
  h.next hL hholds (hjournal ▸ List.suffix_cons _ _) hlegs

theorem acting (hL : Lasting L) : Acting (I.Own L legs k) where
  struck call h := h.next hL (I.struck call h.holds) List.suffix_rfl
  remarked he h := h.noted hL (I.remarked he h.holds)
  reread he h := by
    refine ⟨h.onKey, h.key, h.holds, ⟨h.base.lasts.1, ?_⟩, h.base.depth⟩
    refine (I.excused h.holds).imp_left fun hwell _ => ?_
    obtain ⟨e', state, he', hstate⟩ := hwell.2 k h.key
    cases h.lookup
    cases Option.some.inj (he.symm.trans he')
    exact ⟨state, _, rfl, hstate⟩
  wrote hset h := h.noted hL (I.wrote hset h.holds)

theorem sick {v : View} {w : World} (h : I.Own L legs k (v, w)) (hsick : ¬ Healthy (v, w)) : I.excuse w := by
  refine (I.excused h.holds).resolve_left fun hwell => hsick ⟨hwell.1, ?_⟩
  obtain ⟨e, state, he, -⟩ := hwell.2 k h.key
  cases h.lookup
  exact Option.isSome_of_eq_some he

theorem takes (hL : Lasting L) {C : World → Prop} :
    (Exits.mk (I.Sick L legs k) C).Takes (I.Own L legs k) :=
  fun _ w call e he h hsick =>
    ⟨he, I.lasting (w := w) (List.suffix_cons _ _) (h.sick hsick), (acting hL).reading.failing call e h⟩

theorem stateless {s : View × World} (h : I.Own L legs k s) (hsome : s.1.memo.isSome)
    (hno : ¬ ∃ state, s.1.Recalls state) : I.excuse s.2 :=
  h.base.lasts.2.resolve_left fun hmemo => hno (hmemo hsome)

theorem covers (hL : Lasting L) {C : World → Prop} :
    (Exits.mk (I.Sick L legs k) C).Covers (I.Own L legs k) where
  takes := takes hL
  stateless _ _ he h hsome hno := ⟨he, h.stateless hsome hno, h⟩
  reading _ := {
    struck := fun {_ w} call h =>
      ⟨h.1, I.lasting (w := w) List.suffix_rfl h.2, (acting hL).struck call h.3⟩
    asked := fun hq h => ⟨h.1, I.lasting (List.suffix_cons _ _) h.2, (acting hL).reading.asked hq h.3⟩
    remembered := fun hnone hfound h => ⟨h.1, h.2, (acting hL).reading.remembered hnone hfound h.3⟩ }

theorem numbered (hL : Lasting L) (number : Nat) :
    Reading fun s => I.Own L legs k s ∧ s.2.starts = number where
  struck call h := ⟨(acting hL).struck call h.1, h.2⟩
  asked he h := ⟨(acting hL).reading.asked he h.1, h.2⟩
  remembered hnone he h := ⟨(acting hL).reading.remembered hnone he h.1, h.2⟩

end Own

/-! ## Commands -/

/-- What is known before a transition is started. -/
structure Ready (I : Course engine) (L : World → Prop) (legs : List Leg) (k : StateKey) (number : Nat)
    (free : Prop) (root : Option Process) (context : Context) (t : Transition) (s : View × World) : Prop where
  own : I.Own L legs k s
  picked : ∀ p, root = some p → p.Picks context.user s.1 t
  alone : legs = [] ∨ I.nests
  number : s.2.starts = number
  free : free → s.2.locks.isHeld (k.lockKey engine.config.lockPrefix) = false

/-- What is known of starts from inside a run. -/
def Minds (I : Course engine) (start : Start) : Prop :=
  ∀ ⦃L legs k t root context⦄ (number : Nat) (free : Prop), Lasting L → t.Obeys I.allows →
    (∀ p, root = some p → p.Obeys I.allows) → I.roots root → I.travels context →
    Meets (I.Ready L legs k number free root context t) (start t context root) (fun _ => I.Own L legs k)
      ⟨I.Stuck L legs k number free, I.Cut L⟩

theorem Ready.reading (hL : Lasting L) {number : Nat} {free : Prop} {root : Option Process}
    {context : Context} {t : Transition} : Reading (I.Ready L legs k number free root context t) where
  struck call h := ⟨(Own.acting hL).struck call h.own, h.picked, h.alone, h.number, h.free⟩
  asked he h := ⟨(Own.acting hL).reading.asked he h.own, h.picked, h.alone, h.number, h.free⟩
  remembered hnone he h := ⟨(Own.acting hL).reading.remembered hnone he h.own,
    fun p hp => (p.picks_reading _ t).remembered hnone he (h.picked p hp), h.alone, h.number,
    h.free⟩

section

variable {start : Start} (hstart : I.Minds start) (hL : Lasting L)

include hstart hL

/-- An error leaves nothing under way, or the transition that was started if it is the error of that start. -/
theorem invokeWith_fails {p : Process} (hp : p.Obeys I.allows) (hroot : I.roots (some p)) (action : String)
    {context : Context} (hcontext : I.travels context) (halone : legs = [] ∨ I.nests) {s : View × World}
    (hs : I.Own L legs k s) :
    Meets (fun s' => s' = s) (p.invokeWith engine start action context) (fun _ => I.Own L legs k)
      ⟨fun e s' => I.Own L legs k s' ∨
        (I.Kept L ⟨s.2.starts, k⟩ legs k e s' ∧ p.StartFails engine start action context s e s'), I.Cut L⟩ := by
  have hacting : Acting (I.Own L legs k) := Own.acting hL
  let number := s.2.starts
  have hcovers : (Exits.mk (I.Sick L legs k) (I.Cut L)).Covers
      fun s => I.Own L legs k s ∧ s.2.starts = number :=
    (Own.covers hL).within fun _ h => h.1
  unfold Process.invokeWith
  refine .bind (((ViewM.outcome_meets (p.candidates engine ⟨context.user, some action⟩) s).both
    (p.candidates_picks (Own.numbered hL number) engine _ action hcovers)).mono (fun _ h => ⟨h, h ▸ ⟨hs, rfl⟩⟩)
    (fun _ _ h => h) (fun _ _ h => .inl h.2.own) fun _ h => h.2) fun ts => ?_
  split
  · rename_i t
    refine .point fun s₁ ⟨ho, hs₁, hfound⟩ => ?_
    obtain ⟨hmem, -, hpicks, -⟩ := hfound t rfl
    have hstarts : Meets (I.Ready L legs k number False (some p) context t) (start t context (some p))
        (fun _ => I.Own L legs k) ⟨I.Stuck L legs k number False, I.Cut L⟩ :=
      hstart number False hL (hp t hmem) (fun _ h => by cases h; exact hp) hroot hcontext
    have hends := (ViewM.outcome_meets (start t context (some p)) s₁).both hstarts
    refine .bind (M := fun _ => I.Own L legs k) (hends.mono ?_ (fun _ _ h => h.2) ?_ fun _ h => h.2) fun _ => ?_
    · rintro _ rfl
      exact ⟨rfl, hs₁.1, fun _ hq => by cases hq; exact hpicks, halone, hs₁.2, nofun⟩
    · exact fun e s' h => h.2.imp (fun hown => hown.1) fun hkept => ⟨hkept, t, s₁.1, s₁.2, ho, h.1⟩
    · refine .bind (ViewM.reread_meets hacting.toViewing ?_) fun _ => .pure fun _ h => h
      exact fun v w call e _ h _ => .inl (hacting.reading.failing call e h)
  · exact .throw fun _ h => .inl h.2.1.1
  · exact .throw fun _ h => .inl h.2.1.1

theorem invokeWith_meets {p : Process} (hp : p.Obeys I.allows) (hroot : I.roots (some p)) (action : String)
    {context : Context} (hcontext : I.travels context) (halone : legs = [] ∨ I.nests) (number : Nat) :
    Meets (fun s => I.Own L legs k s ∧ s.2.starts = number) (p.invokeWith engine start action context)
      (fun _ => I.Own L legs k) ⟨I.Stuck L legs k number False, I.Cut L⟩ := by
  refine .point fun s hs => ?_
  obtain ⟨hown, rfl⟩ := hs
  refine (invokeWith_fails hstart hL hp hroot action hcontext halone hown).mono (fun _ h => h) (fun _ _ h => h) ?_
    fun _ h => h
  exact fun _ _ h => h.imp (fun hown => ⟨hown, nofun⟩) fun hkept => hkept.1

variable (hengine : engine.Obeys I.allows)

include hengine

theorem invokeNamed_meets {process : String} {key : StateKey} {action : String} {data : Table}
    (hop : I.allows (.invoke process key action data)) (context : Context) :
    Meets (I.Base L legs) (Op.invokeNamed engine start process key action context)
      (fun _ => I.Base L legs) (.only (I.Cut L)) := by
  obtain ⟨hnests, hkey, htravels, hroots, hdropped⟩ := I.invoked hop
  unfold Op.invokeNamed
  split
  · rename_i p hp
    have hmem : (process, p) ∈ engine.processes := by
      obtain ⟨_, _, heq, -⟩ := List.lookup_eq_some_iff.1 hp
      exact heq ▸ List.mem_append_right _ (List.mem_cons_self ..)
    refine .point fun w hw => ?_
    have hinvokes := invokeWith_meets hstart hL (hengine _ hmem) (hroots _) action (htravels context)
      (.inr hnests : legs = [] ∨ I.nests) (k := key) w.starts
    refine ((ViewM.onFresh_meets hinvokes).pre ?_).post fun r w' ⟨v, h⟩ => ?_
    · rintro _ rfl
      exact ⟨hw.fresh hkey, rfl⟩
    cases r with
    | ok _ => exact h.world
    | error _ =>
        rcases h with ⟨h, -⟩ | ⟨leg, -, -, h⟩
        · exact h.world
        · exact h.own.world.dropped (hdropped h.own.holds)
  · exact .pure fun _ h => h

theorem run_meets (op : Op) (hop : I.allows op) {E} :
    Meets (I.Own L legs k) (op.run engine start) (fun _ => I.Own L legs k) ⟨E, I.Cut L⟩ := by
  have hacting : Acting (I.Own L legs k) := Own.acting hL
  cases op with
  | lock =>
      refine .liftCommand (Meets.attempt (.point fun s hs => .bindKnown (ViewM.lockKey_meets engine s) ?_))
      obtain rfl := hs.onKey
      refine ViewM.ofCall_meets fun v => CallM.acquire_meets ?_ ?_ ?_
      · rintro w m h -
        cases h
        exact hacting.reading.failing .acquire _ hs
      · rintro w h -
        cases h
        exact hacting.struck .acquire hs
      · intro w h hfree
        cases h
        have h := hacting.struck .acquire hs
        exact h.noted hL (I.acquired hop hs.key hfree h.holds)
  | unlock =>
      refine .liftCommand (Meets.attempt (.point fun s hs => .bindKnown (ViewM.lockKey_meets engine s) ?_))
      obtain rfl := hs.onKey
      refine ViewM.ofCall_meets fun v => CallM.release_meets ?_ ?_
      · rintro w m h -
        cases h
        exact hacting.reading.failing .release _ hs
      · intro w h
        cases h
        have h := hacting.struck .release hs
        exact h.noted hL (I.freed hop hs.key h.holds)
  | removeEntity =>
      refine .bind Op.getView_meets fun v => Op.ofEngine_meets fun v' => EngineM.modify_meets fun w h => ?_
      exact h.1.noted hL (I.removed _ _ h.1.holds)
  | invoke process key action data =>
      refine .bind (M := fun _ => I.Own L legs k) (fun c => Worldly.pure (m := FieldM) fun _ h => h)
        fun c => Op.ofEngine_meets fun v => .point fun w hw => ?_
      exact (invokeNamed_meets hstart (Past.lasting hL v) hengine hop _).mono (fun _ h => h ▸ hw.base)
        (fun _ _ h => ⟨hw.onKey, hw.key, h⟩) (fun _ _ h => h) fun _ h => h.of_past
  | _ => exact Op.run_meets hacting _ rfl

theorem runAll_meets {cs : List Command} (hcs : ∀ c ∈ cs, c.body.All I.allows) {context : Context}
    (hcontext : I.travels context) {E} :
    Meets (m := FieldM) (I.Own L legs k) ((Command.runAll engine start cs).run context)
      (fun r s => I.Own L legs k s ∧ I.travels r.2) ⟨E, I.Cut L⟩ := by
  have hacts : Meets (I.Own L legs k) (Command.runAll engine start cs) (fun _ => I.Own L legs k)
      ⟨E, I.Cut L⟩ :=
    Command.runAll_meets (Own.acting hL).toViewing (fun op hop => run_meets hstart hL hengine op hop) cs hcs
  exact (Meets.both (hacts context) (Command.runAll_travels I.inserted cs hcontext)).mono
    (fun _ h => ⟨h, trivial⟩) (fun _ _ h => h) (fun _ _ h => h.1) fun _ h => h.1

end

/-! ## Steps of a transition -/

section

variable (leg : Leg) (hL : Lasting L)

include hL

theorem Kept.takes {C : World → Prop} :
    (Exits.mk (I.Kept L leg.flight legs k) C).Takes (I.Own L (leg :: legs) k) :=
  fun v w call e he h hsick => ⟨leg, rfl, .inl (w.justFailed call e), Own.takes hL (C := C) v w call e he h hsick⟩

theorem report_meets {X : Exits (View × World)} {kind : EventKind}
    (hrejected : kind ≠ .lockRejected := by nofun) (hunlocked : kind ≠ .unlocked := by nofun) :
    Meets (I.Own L (leg :: legs) leg.flight.key) (leg.transition.report kind)
      (fun _ => I.Own L (leg.after [kind] :: legs) leg.flight.key) X := by
  refine leg.transition.report_tells fun v w h => ?_
  rw [h.lookup]
  exact h.noted hL (I.told kind hrejected hunlocked h.holds)

theorem writeState_meets (value : String) (phase : Phase) :
    Meets (I.Own L (leg :: legs) leg.flight.key) (leg.transition.writeState value phase)
      (fun _ s => ∃ c : Change, I.Own L (leg.after [c.kind phase] :: legs) leg.flight.key s)
      ⟨I.Kept L leg.flight legs leg.flight.key, I.Cut L⟩ := by
  refine leg.transition.writeState_tells (Own.acting hL) (Kept.takes leg hL) fun source v w h =>
    ⟨⟨source, value⟩, ?_⟩
  rw [h.lookup]
  exact h.noted hL (I.told _ nofun nofun h.holds)

theorem enter_meets :
    Meets (fun s => I.Own L (leg :: legs) leg.flight.key s ∧ I.Informed s) leg.transition.enter
      (fun _ s => ∃ c : Option Change,
        I.Own L (leg.after (c.map (Change.kind .inProgress)).toList :: legs) leg.flight.key s)
      ⟨I.Kept L leg.flight legs leg.flight.key, I.Cut L⟩ := by
  unfold Transition.enter
  split
  · exact .pure fun _ h => ⟨none, by simpa using h.1⟩
  · refine .bind (M := fun _ => I.Own L (leg :: legs) leg.flight.key) ?_ fun previous => ?_
    · have hacting : Acting (I.Own L (leg :: legs) leg.flight.key) := Own.acting hL
      refine (ViewM.memoizedState_meets (hacting.reading.and Informed.reading) ?_ ?_).post fun _ _ h => h.1.1
      · exact fun v w call e he h hsick => Kept.takes leg hL (C := I.Cut L) v w call e he h.1 hsick
      · exact fun e s he ⟨h, hinformed⟩ hsome hno =>
          ⟨leg, rfl, .inr (hinformed.resolve_left hno), he, h.stateless hsome hno, h⟩
    · exact .bind (writeState_meets leg hL _ _) fun _ => .pure fun _ ⟨c, h⟩ => ⟨some c, h⟩

/-- The lock is free by the time that the unlock is told. -/
theorem release_meets :
    Meets (I.Own L (leg :: legs) leg.flight.key) (leg.transition.release engine (some leg.flight.number))
      (fun _ s => I.Own L (leg.after [.unlocked] :: legs) leg.flight.key s ∧
        s.2.locks.isHeld (leg.flight.key.lockKey engine.config.lockPrefix) = false)
      ⟨I.Kept L leg.flight legs leg.flight.key, I.Cut L⟩ := by
  unfold Transition.release
  refine .point fun s hs => .bindKnown (ViewM.key_meets s) ?_
  rw [hs.onKey]
  refine .bind (M := fun _ => I.Own L (leg :: legs) leg.flight.key) ?_ fun _ => ?_
  · refine ViewM.ofEngine_meets fun v => EngineM.modify_meets fun w h => ?_
    cases h
    exact hs.noted hL (I.landed hs.holds)
  refine .bind (M := fun _ s => ∃ w, I.Own L (leg :: legs) leg.flight.key (s.1, w) ∧
    s.2 = w.unlock (leg.flight.key.lockKey engine.config.lockPrefix)) ?_ fun _ => ?_
  · refine .point fun s hs => .bindKnown (ViewM.lockKey_meets engine s) ?_
    refine ViewM.ofCall_meets fun v => CallM.release_meets ?_ ?_
    · intro w m h hw
      cases h
      exact Kept.takes leg hL (C := I.Cut L) v w .release _ rfl hs fun h => hw h.1
    · intro w h
      cases h
      exact ⟨_, (Own.acting hL).struck .release hs, by rw [hs.lookup]⟩
  · refine leg.transition.report_tells fun v w' h => ?_
    obtain ⟨w, h, hw'⟩ := h
    cases hw'
    rw [h.lookup]
    refine ⟨Own.next (w := w) hL h (I.unlocked h.holds) ?_, LockStore.isHeld_release_self ..⟩
    exact (List.suffix_cons _ _).trans (List.suffix_cons _ _)

theorem abort_meets (previous : Option String) (reason : String) (hopened : leg.Opened) :
    Meets (I.Own L (leg :: legs) leg.flight.key)
      (leg.transition.abort engine previous reason (some leg.flight.number))
      (fun _ s => I.Own L legs leg.flight.key s ∧
        s.2.locks.isHeld (leg.flight.key.lockKey engine.config.lockPrefix) = false)
      ⟨I.Kept L leg.flight legs leg.flight.key, I.Cut L⟩ := by
  unfold Transition.abort
  extract_lets rest
  have hrest (c : Option Change) :
      Meets (I.Own L (leg.after (c.map (Change.kind .failed)).toList :: legs) leg.flight.key) (rest ())
        (fun _ s => I.Own L legs leg.flight.key s ∧
          s.2.locks.isHeld (leg.flight.key.lockKey engine.config.lockPrefix) = false)
        ⟨I.Kept L leg.flight legs leg.flight.key, I.Cut L⟩ := by
    refine .bind (release_meets (leg.after _) hL) fun _ => ?_
    refine leg.transition.report_tells fun v w ⟨h, hfree⟩ => ⟨?_, hfree⟩
    rw [h.lookup]
    have htold := h.noted hL (I.told (.failed ("side-effect job rejected: " ++ reason)) nofun nofun h.holds)
    refine htold.next hL (I.ended ?_ htold.holds) List.suffix_rfl
    have hover := Leg.over_after hopened (.failed c ("side-effect job rejected: " ++ reason) none)
    simpa [Ending.kinds] using hover
  split
  · exact .bind (writeState_meets leg hL _ _) fun _ => .pick fun c => hrest (some c)
  · exact (hrest none).pre fun _ h => by simpa using h

section

variable {start : Start} (hstart : I.Minds start) (hengine : engine.Obeys I.allows)

include hstart hengine

/-- A callback that fails is told, and nothing else comes of it. -/
theorem runCallbacks_meets {callbacks : List Command} (hcs : ∀ c ∈ callbacks, c.body.All I.allows)
    (onFailurePath : Bool) {context : Context} (hcontext : I.travels context) {E} :
    Meets (I.Own L (leg :: legs) leg.flight.key)
      (leg.transition.runCallbacks engine start callbacks onFailurePath context)
      (fun c s => I.travels c ∧ ∃ f : Option CommandFailure,
        I.Own L (leg.after (f.map (CommandFailure.kind onFailurePath)).toList :: legs) leg.flight.key s)
      ⟨E, I.Cut L⟩ := by
  unfold Transition.runCallbacks
  refine .bind (.liftExcept (runAll_meets hstart hL hengine hcs hcontext)) fun r => ?_
  obtain ⟨failure, context'⟩ := r
  refine (Meets.assume fun htravels => ?_).pre fun _ h => ⟨h.2, h.1⟩
  cases failure with
  | none => exact .pure fun _ h => ⟨htravels, none, by simpa using h⟩
  | some f =>
      exact .bind (report_meets leg hL) fun _ => .pure fun _ h => ⟨htravels, some f, h⟩

variable (ht : leg.transition.Obeys I.allows) (hopened : leg.Opened)

include ht

theorem succeed_meets {context : Context} (hcontext : I.travels context) :
    Meets (I.Own L (leg :: legs) leg.flight.key)
      (leg.transition.succeed engine start context (some leg.flight.number))
      (fun c s => I.travels c ∧ ∃ (written : Option Change) (callback : Option CommandFailure),
        I.Own L (leg.after (Ending.completed written callback none).kinds :: legs) leg.flight.key s)
      ⟨I.Kept L leg.flight legs leg.flight.key, I.Cut L⟩ := by
  unfold Transition.succeed
  extract_lets rest
  have hrest (c : Option Change) :
      Meets (I.Own L (leg.after (c.map (Change.kind .completed)).toList :: legs) leg.flight.key) (rest ())
        (fun context s => I.travels context ∧ ∃ (written : Option Change) (callback : Option CommandFailure),
          I.Own L (leg.after (Ending.completed written callback none).kinds :: legs) leg.flight.key s)
        ⟨I.Kept L leg.flight legs leg.flight.key, I.Cut L⟩ := by
    refine .bind ((release_meets (leg.after _) hL).post fun _ _ h => h.1) fun _ => ?_
    refine .bind (report_meets ((leg.after _).after _) hL) fun _ => ?_
    refine (runCallbacks_meets (((leg.after _).after _).after _) hL hstart hengine ht.callbacks false
      hcontext).post fun _ s ⟨htravels, callback, h⟩ => ⟨htravels, c, callback, ?_⟩
    simpa [Ending.kinds] using h
  split
  · exact .bind (writeState_meets leg hL _ _) fun _ => .pick fun c => hrest (some c)
  · exact (hrest none).pre fun _ h => by simpa using h

theorem fail_meets (hopened : leg.Opened) (failure : CommandFailure) {context : Context}
    (hcontext : I.travels context) :
    Meets (I.Own L (leg :: legs) leg.flight.key)
      (leg.transition.fail engine start failure context (some leg.flight.number))
      (fun _ => I.Own L legs leg.flight.key) ⟨I.Kept L leg.flight legs leg.flight.key, I.Cut L⟩ := by
  unfold Transition.fail
  extract_lets rest
  have hrest (c : Option Change) :
      Meets (I.Own L (leg.after (c.map (Change.kind .failed)).toList :: legs) leg.flight.key) (rest ())
        (fun _ => I.Own L legs leg.flight.key) ⟨I.Kept L leg.flight legs leg.flight.key, I.Cut L⟩ := by
    refine .bind ((release_meets (leg.after _) hL).post fun _ _ h => h.1) fun _ => ?_
    refine .bind (report_meets ((leg.after _).after _) hL) fun _ => ?_
    refine .bind (runCallbacks_meets (((leg.after _).after _).after _) hL hstart hengine ht.failureCallbacks
      true (I.failing context failure hcontext)) fun _ => .pure fun s ⟨_, callback, h⟩ => ?_
    refine h.next hL (I.ended ?_ h.holds) List.suffix_rfl
    have hover := Leg.over_after hopened (.failed c failure.message callback)
    simpa [Ending.kinds] using hover
  split
  · exact .bind (writeState_meets leg hL _ _) fun _ => .pick fun c => hrest (some c)
  · exact (hrest none).pre fun _ h => by simpa using h

end

end

end Course

/-! ## Any commands -/

/-- Whether the lock with that key is taken or released. -/
def Entry.turns? (lockKey : String) : Entry → Option Bool
  | acquired l => if l = lockKey then some true else none
  | released l => if l = lockKey then some false else none
  | _ => none

theorem Entry.turns?_of_isRemark {e : Entry} (h : e.isRemark = true) (lockKey : String) :
    e.turns? lockKey = none := by
  cases e <;> first | rfl | cases h

/-- A statement about locks and about what is recorded of them. -/
structure World.AboutLocks (ttl : Nat) (P : World → Prop) : Prop where
  moved {w w' : World} (h : P w) (hlocks : w'.locks = w.locks := by rfl)
    (hjournal : w'.journal = w.journal := by rfl) : P w'
  noted {w w' : World} {e : Entry} (h : P w) (he : ∀ lockKey, e.turns? lockKey = none := by intro; rfl)
    (hlocks : w'.locks = w.locks := by rfl) (hjournal : w'.journal = w.journal := by rfl) : P (w'.record e)
  locked : ∀ {w} lockKey, w.locks.isHeld lockKey = false → P w → P (w.lock lockKey ttl)
  unlocked : ∀ {w} lockKey, P w → P (w.unlock lockKey)

/-- The course that any commands, executors and errors may take. -/
def anyCourse (engine : Engine) {P : World → Prop} (h : World.AboutLocks engine.config.lockTtl P)
    (roots : Option Process → Prop) (hroots : ∀ p, roots (some p)) : Course engine where
  holds _ := P
  allows _ := True
  keys _ := True
  travels _ := True
  roots := roots
  executors _ := True
  excuse _ := True
  runs := True
  refuses := True
  nests := True
  lasting _ _ := trivial
  excused _ := .inr trivial
  inserted _ _ _ _ := trivial
  failing _ _ _ := trivial
  resumed _ _ := trivial
  varied _ := ⟨trivial, trivial⟩
  running _ := trivial
  rejecting _ := trivial
  executor _ := trivial
  struck _ hw := h.moved hw
  remarked he hw := h.noted hw (Entry.turns?_of_isRemark he)
  wrote _ hw := h.noted hw
  removed _ _ hw := h.noted hw
  switched _ _ hw := h.moved hw
  turnedAway _ _ hw := h.noted hw
  started _ _ _ _ _ _ _ hfree _ hw := h.noted (h.locked _ hfree hw)
  told _ _ _ hw := h.noted hw
  landed hw := h.noted hw
  unlocked hw := h.noted (h.unlocked _ hw)
  ended _ hw := hw
  queued _ _ _ hw := h.moved hw
  pooled _ _ _ hw := h.moved hw
  reported _ _ _ _ _ hw := h.noted hw
  abandoned _ _ _ _ _ hw := h.noted hw
  acquired _ _ _ _ _ hfree hw := h.locked _ hfree hw
  freed _ _ _ _ _ hw := h.unlocked _ hw
  invoked _ := ⟨trivial, trivial, fun _ => trivial, hroots, fun hw => hw⟩

theorem Program.all_true {α : Type} (p : Program α) : p.All fun _ => True := by
  induction p with
  | pure a => trivial
  | call op next ih => exact ⟨trivial, ih⟩

end Workflow
