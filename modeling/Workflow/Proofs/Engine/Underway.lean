import Workflow.Proofs.Engine.Course

/-!
# The course of starts and jobs

A start takes the lock and hands its side effects over; what follows them may start the next transition. With
what a course says of single steps, this goes for starts that start one another to any depth.
-/

namespace Workflow

/-- What a start does when it has the lock. -/
def Transition.launch (engine : Engine) (start : Start) (t : Transition) (context : Context)
    (root : Option Process) : ViewM Unit := do
  let number ← t.recordStart context
  t.report .locked
  t.handOver engine start context root number (← t.enter)

namespace Course

variable {engine : Engine} {I : Course engine} {L : World → Prop} {legs : List Leg} {leg : Leg} {k : StateKey}

theorem Base.over {w : World} (h : I.Base L (leg :: legs) w) (hover : leg.Over) : I.Base L legs w :=
  h.dropped (I.ended hover h.holds)

theorem Own.over {s : View × World} (h : I.Own L (leg :: legs) k s) (hover : leg.Over) : I.Own L legs k s :=
  ⟨h.onKey, h.key, h.base.over hover⟩

variable {start : Start} (hstart : I.Minds start) (hengine : engine.Obeys I.allows)

/-! ## Chains -/

section

variable (hL : Lasting L) (hruns : I.runs)

include hstart hL

/-- What is gone on with leaves nothing under way, or the transition that was started. -/
theorem proceed_meets (leg : Leg) (legs : List Leg) (next : String) {context : Context} {p : Process}
    (hover : ∀ skipped : Option (String × Nat),
      (leg.after (skipped.map fun s => .chainSkipped s.1 s.2).toList).Over)
    (hcontext : I.travels context) (hroot : I.roots (some p)) (hobeys : p.Obeys I.allows) (number : Nat) :
    Meets (fun s => I.Own L (leg :: legs) leg.flight.key s ∧ s.2.starts = number)
      (leg.transition.proceed engine start next context p) (fun _ => I.Own L legs leg.flight.key)
      ⟨I.Stuck L legs leg.flight.key number True, I.Cut L⟩ := by
  have hcovers : (Exits.mk (I.Sick L (leg :: legs) leg.flight.key) (I.Cut L)).Covers
      fun s => I.Own L (leg :: legs) leg.flight.key s ∧ s.2.starts = number :=
    (Own.covers hL).within fun _ h => h.1
  have hended : (leg.after []).Over := hover none
  rw [Leg.after_nil] at hended
  refine .bind ((p.candidates_picks (Own.numbered hL _) engine _ next hcovers).mono (fun _ h => h)
    (fun _ _ h => h) (fun _ _ h => .inl ⟨h.own.over hended, fun _ => .inl h.excuse⟩) fun _ h => h) fun us => ?_
  split
  · rename_i u
    refine .point fun s hs => ?_
    obtain ⟨hmem, -, hpicks, hfree⟩ := hs.2 u rfl
    refine (hstart number True hL (hobeys u hmem) (fun _ h => by cases h; exact hobeys) hroot
      (I.resumed context hcontext)).pre ?_
    rintro _ rfl
    exact ⟨hs.1.1.over hended, fun _ hq => by cases hq; exact hpicks, hs.1.1.base.alone, hs.1.2,
      fun _ => hs.1.1.onKey ▸ hfree⟩
  · refine ((report_meets leg hL).pre fun _ h => h.1.1).post fun _ _ h => ?_
    exact h.over (hover (some (next, us.length)))

include hruns

/-- An error of the transition that is gone on with is told, and nothing of it is under way any more. -/
theorem chain_meets (leg : Leg) (next : String) {context : Context} {root : Option Process}
    (hover : ∀ skipped : Option (String × Nat),
      (leg.after (skipped.map fun s => .chainSkipped s.1 s.2).toList).Over)
    (hcontext : I.travels context) (hroot : I.roots root) (hobeys : ∀ p, root = some p → p.Obeys I.allows)
    {E} :
    Meets (I.Own L (leg :: legs) leg.flight.key) (leg.transition.chain engine start next context root)
      (fun _ s => I.Base L legs s.2) ⟨E, I.Cut L⟩ := by
  cases root with
  | none => exact (report_meets leg hL).post fun _ _ h => h.world.over (hover (some (next, 0)))
  | some p =>
      refine .point fun s hs => ?_
      have hproceed := proceed_meets hstart hL leg legs next hover hcontext hroot (hobeys p rfl) s.2.starts
      refine (leg.transition.chain_steps s (hproceed.mono ?_ (fun _ _ h => h.world) (fun _ _ h => h) fun _ h => h)
        ?_).post fun _ _ h => h.2
      · rintro _ rfl
        rw [hs.onKey]
        exact ⟨hs.world.fresh hs.key, rfl⟩
      · rw [hs.onKey]
        rintro e s' (⟨h, hexcuse⟩ | ⟨leg', hflight, hcaused, h⟩)
        · exact h.world.next hL (I.reported _ _ h.key hruns (hexcuse trivial) h.holds) (List.suffix_cons _ _)
        · have habandoned := I.abandoned next e hruns h.excuse hcaused h.own.holds
          rw [hflight] at habandoned
          exact h.own.world.next hL habandoned (List.suffix_cons _ _)

include hengine

theorem complete_meets {context : Context} {root : Option Process} (ht : leg.transition.Obeys I.allows)
    (hopened : leg.Opened) (hcontext : I.travels context) (hroot : I.roots root)
    (hobeys : ∀ p, root = some p → p.Obeys I.allows) :
    Meets (I.Own L (leg :: legs) leg.flight.key)
      (leg.transition.complete engine start context root (some leg.flight.number))
      (fun _ s => I.Base L legs s.2) ⟨I.Kept L leg.flight legs leg.flight.key, I.Cut L⟩ := by
  unfold Transition.complete
  refine .bind (succeed_meets leg hL hstart hengine ht hcontext) fun context' => .assume fun htravels =>
    .pick fun written => .pick fun callback => ?_
  have hover (skipped : Option (String × Nat)) :
      ((leg.after (Ending.completed written callback none).kinds).after
        (skipped.map fun s => .chainSkipped s.1 s.2).toList).Over := by
    have h := Leg.over_after hopened (.completed written callback skipped)
    simpa [Ending.kinds] using h
  split
  · exact chain_meets hstart hL hruns (leg.after _) _ hover htravels hroot hobeys
  · have hended := hover none
    exact .pure fun _ h => h.world.over (by simpa using hended)

end

/-! ## Jobs -/

/-- A job that ends with an error leaves its transition under way. -/
def Ran (I : Course engine) (L : World → Prop) (f : Flight) (legs : List Leg) :
    Except EngineError Unit → World → Prop
  | .ok _ => I.Base L legs
  | .error e => fun w => e.isOfStore = true ∧ I.excuse w ∧ I.Caused e w ∧
      ∃ leg, leg.flight = f ∧ I.Base L (leg :: legs) w

def Handed (I : Course engine) (L : World → Prop) (leg : Leg) (legs : List Leg) :
    Except DispatchError Unit → World → Prop
  | .ok _ => I.Base L legs
  | .error (.continuation e) => I.Ran L leg.flight legs (.error e)
  | .error (.rejected _) => fun w => I.refuses ∧ I.Base L (leg :: legs) w

section

variable {job : Job} (hL : Lasting L) (hjob : job.Bears I.allows I.keys I.travels I.roots leg)

include hstart hengine hL hjob

theorem job_meets (hruns : I.runs) :
    Meets (I.Base L (leg :: legs)) (job.run engine start) (I.Ran L leg.flight legs) (.only (I.Cut L)) := by
  obtain ⟨-, -, -, hf⟩ := Job.finish_of_flight hjob.flight
  have hkey : leg.flight.key = job.key := by rw [hf]
  have hkeys : I.keys leg.flight.key := hkey ▸ hjob.key
  have hended {m : ViewM Unit} (hm : Meets (I.Own L (leg :: legs) leg.flight.key) m
      (fun _ s => I.Base L legs s.2) ⟨I.Kept L leg.flight legs leg.flight.key, I.Cut L⟩) :
      Meets (I.Base L (leg :: legs)) (ViewM.onFresh leg.flight.key m) (I.Ran L leg.flight legs)
        (.only (I.Cut L)) := by
    refine ((ViewM.onFresh_meets hm).pre fun w h => h.fresh hkeys).post fun r w ⟨v, h⟩ => ?_
    cases r with
    | ok _ => exact h
    | error _ =>
        obtain ⟨leg', hflight, hcaused, h⟩ := h
        exact ⟨h.ofStore, h.excuse, hcaused, leg', hflight, h.own.world⟩
  unfold Job.run
  rw [← hkey]
  refine .bind (m := EngineM) (M := fun r w => I.Base L (leg :: legs) w ∧ I.travels r.1.2) ?_ fun r => ?_
  · exact Meets.mono (m := EngineM)
      (runAll_meets (E := fun _ _ => True) hstart hL hengine hjob.steps hjob.context
        (View.fresh leg.flight.key))
      (fun w h => h.fresh hkeys) (fun _ _ h => ⟨h.1.world, h.2⟩) (fun _ _ h => h) fun _ h => h
  obtain ⟨⟨failure, context⟩, _⟩ := r
  obtain ⟨root, hcont, hroot⟩ := hjob.finish
  have ht := hjob.transition _ _ root hcont
  rw [hcont]
  refine (Meets.assume (P := I.Base L (leg :: legs)) fun htravels => ?_).pre fun _ h => ⟨h.2, h.1⟩
  cases failure with
  | none =>
      exact hended (complete_meets hstart hengine hL hruns ht hjob.opened htravels hroot
        fun p hp => hjob.root _ _ p (hp ▸ hcont))
  | some failure =>
      exact hended ((fail_meets leg hL hstart hengine ht hjob.opened failure htravels).post
        fun _ _ h => h.world)

theorem runDetached_meets (hruns : I.runs) :
    Meets (I.Base L (leg :: legs)) (job.runDetached engine start) (fun _ => I.Base L legs)
      (.only (I.Cut L)) := by
  obtain ⟨-, -, -, hf⟩ := Job.finish_of_flight hjob.flight
  unfold Job.runDetached
  refine .bind (m := EngineM) (job_meets hstart hengine hL hjob hruns) fun r => ?_
  cases r with
  | ok _ => exact .pure fun _ h => h
  | error e =>
      refine EngineM.modify_meets fun w ⟨_, hexcuse, hcaused, leg', hflight, h⟩ => ?_
      have habandoned := I.abandoned job.action e hruns hexcuse hcaused h.holds
      rw [hflight, hf] at habandoned
      exact h.next hL habandoned (List.suffix_cons _ _)

theorem handTo_meets (executor : Executor) (hexecutor : I.executors executor) :
    Meets (I.Base L (leg :: legs)) (job.handTo engine start executor) (I.Handed L leg legs)
      (.only (I.Cut L)) := by
  induction executor with
  | inline =>
      refine .bind (m := EngineM) (job_meets hstart hengine hL hjob (I.running (.inl hexecutor))) fun r => ?_
      cases r with
      | ok _ => exact .pure fun _ h => h
      | error e => exact .pure fun _ h => h
  | detaching =>
      exact .bind (m := EngineM) (runDetached_meets hstart hengine hL hjob (I.running (.inr hexecutor)))
        fun _ => .pure fun _ h => h
  | queue =>
      refine .bind (m := EngineM) (M := fun _ => I.Base L legs) ?_ fun _ => .pure fun _ h => h
      exact EngineM.modify_meets fun w h =>
        h.next hL (I.queued job hjob hexecutor h.holds) List.suffix_rfl
  | pool =>
      refine .bind (m := EngineM) (M := fun _ => I.Base L legs) ?_ fun _ => .pure fun _ h => h
      exact EngineM.modify_meets fun w h =>
        h.next hL (I.pooled job hjob hexecutor h.holds) List.suffix_rfl
  | rejecting reason => exact .pure fun _ h => ⟨I.rejecting hexecutor, h⟩
  | varying first rest ihfirst ihrest =>
      obtain ⟨hfirst, hrest⟩ := I.varied hexecutor
      refine .bind (m := EngineM) (M := fun _ => I.Base L (leg :: legs)) ?_ fun _ => ihfirst hfirst
      exact EngineM.modify_meets fun w h => h.next hL (I.switched rest hrest h.holds) List.suffix_rfl

theorem dispatch_meets :
    Meets (I.Base L (leg :: legs)) (job.dispatch engine start) (I.Handed L leg legs) (.only (I.Cut L)) := by
  refine .bind (m := EngineM) EngineM.get_meets fun w => .point fun _ ⟨hw, h⟩ => ?_
  cases hw
  exact (handTo_meets hstart hengine hL hjob _ (I.executor h.holds)).pre fun _ heq => heq ▸ h

end

/-! ## Starts -/

/-- The error of a start that has the lock. -/
structure Broken (I : Course engine) (L : World → Prop) (f : Flight) (legs : List Leg) (e : EngineError)
    (s : View × World) : Prop where
  allowed : e.isNotAllowed = false
  left : (I.Own L legs f.key s ∧ I.refuses ∧ s.2.locks.isHeld (f.key.lockKey engine.config.lockPrefix) = false) ∨
    I.Kept L f legs f.key e s

theorem Kept.broken {f : Flight} {e : EngineError} {s : View × World} (h : I.Kept L f legs f.key e s) :
    I.Broken L f legs e s := by
  have ⟨_, _, _, hsick⟩ := h
  exact ⟨EngineError.isNotAllowed_of_isOfStore hsick.ofStore, .inr h⟩

def Locked (I : Course engine) (L : World → Prop) (legs : List Leg) (k : StateKey) (number : Nat)
    (root : Option Process) (context : Context) (t : Transition) (s : View × World) : Prop :=
  ∃ w, I.Ready (fun _ => True) legs k number True root context t (s.1, w) ∧
    s.2 = w.lock (k.lockKey engine.config.lockPrefix) engine.config.lockTtl ∧ L s.2

def Tried (I : Course engine) (L : World → Prop) (legs : List Leg) (k : StateKey) (number : Nat) (free : Prop)
    (root : Option Process) (context : Context) (t : Transition) : Bool → View × World → Prop
  | true => I.Locked L legs k number root context t
  | false => fun s => I.Own L legs k s ∧ (free → I.excuse s.2)

section

variable (hL : Lasting L) {number : Nat} {free : Prop} {root : Option Process} {context : Context}
  {t : Transition}

include hL

theorem lock_meets :
    Meets (I.Ready L legs k number free root context t) (ViewM.lock engine)
      (I.Tried L legs k number free root context t) ⟨I.Stuck L legs k number free, I.Cut L⟩ := by
  refine .point fun s hs => .bindKnown (ViewM.lockKey_meets engine s) ?_
  obtain ⟨v, w⟩ := s
  obtain rfl : v.key = k := hs.own.onKey
  have hstruck := (Ready.reading hL).struck .acquire hs
  have hexcuse (h : w.faults ≠ []) : I.excuse (w.struck .acquire) :=
    I.lasting (w := w) List.suffix_rfl (hs.own.sick fun hwell => h hwell.1)
  refine ViewM.ofCall_meets fun v' => CallM.acquire_meets ?_ ?_ ?_
  · intro w' m h hfaults
    cases h
    exact .inl ⟨(Own.acting hL).reading.failing .acquire _ hs.own,
      fun _ => .inl (I.lasting (w := w.struck .acquire) (List.suffix_cons _ _) (hexcuse hfaults))⟩
  · intro w' h hmissed
    cases h
    refine ⟨hstruck.own, fun hfree => hmissed.elim hexcuse fun hheld => ?_⟩
    exact absurd (hheld.symm.trans (hs.free hfree)) nofun
  · intro w' h hfree
    cases h
    have hown := hstruck.own
    refine ⟨_, ⟨⟨hown.onKey, hown.key, hown.holds, ⟨trivial, hown.base.lasts.2⟩, hown.base.depth⟩,
      hstruck.picked, hstruck.alone, hstruck.number, fun _ => hfree⟩, rfl, ?_⟩
    exact hL (w := w) (List.suffix_cons _ _) hs.own.base.lasts.1

theorem recordStart_meets (hcontext : I.travels context) (hroot : I.roots root) {X : Exits (View × World)} :
    Meets (I.Locked L legs k number root context t) (t.recordStart context)
      (fun n s => n = number ∧ I.Own L (⟨⟨number, k⟩, t, []⟩ :: legs) k s ∧ I.Informed s) X := by
  refine .point fun s hs => .bindKnown (ViewM.getView_meets s) ?_
  refine .bindKnown (ViewM.getWorld_meets s) ?_
  obtain ⟨v, w'⟩ := s
  obtain ⟨w, hready, rfl, hlasts⟩ := hs
  obtain rfl : v.key = k := hready.own.onKey
  obtain rfl : w.starts = number := hready.number
  let w' := w.lock (v.key.lockKey engine.config.lockPrefix) engine.config.lockTtl
  dsimp only
  refine .bindKnown (a := w.starts) (t := (v, w'.takeOff v.key)) ?_ ?_
  · refine ViewM.ofEngine_meets fun v' => .point fun _ h => ?_
    cases h
    exact (EngineM.takeOff_meets v.key w').post fun _ _ h => ⟨h.1, h.2 ▸ rfl⟩
  · let s : Started :=
      ⟨w.starts, t, v.key, (w'.entities.getField v.key).toOption, v.memo, context⟩
    have hstarted := I.started s root hready.own.key rfl hcontext hroot hready.picked (hready.free trivial)
      hready.alone hready.own.holds
    refine .bind (M := fun _ s' => s' = (v, (w'.takeOff v.key).record (.started s))) ?_ fun _ => ?_
    · refine ViewM.ofEngine_meets fun v' => EngineM.modify_meets fun _ h => ?_
      cases h
      rfl
    · refine .pure fun _ h => ?_
      rw [h]
      have hinformed : I.Informed (v, (w'.takeOff v.key).record (.started s)) := by
        cases root with
        | none => exact .inr hroot
        | some p =>
            obtain ⟨state, -, hrecalls⟩ := (hready.picked p rfl).fits
            exact .inl ⟨state, hrecalls⟩
      refine ⟨rfl, ⟨rfl, hready.own.key, hstarted, ⟨hL (w := w') (List.suffix_cons _ _) hlasts, ?_⟩, ?_⟩, hinformed⟩
      · refine hready.own.base.lasts.2.imp_right fun h => I.lasting (w := w) ?_ h
        exact (List.suffix_cons _ _).trans (List.suffix_cons _ _)
      · exact hready.alone.imp_left fun hnil => by rw [hnil]; exact Nat.le_refl _

include hstart hengine

theorem handOver_meets (leg : Leg) (ht : leg.transition.Obeys I.allows) (hopened : leg.Opened)
    (hobeys : ∀ p, root = some p → p.Obeys I.allows) (hroot : I.roots root) (hcontext : I.travels context)
    (previous : Option String) :
    Meets (I.Own L (leg :: legs) leg.flight.key)
      (leg.transition.handOver engine start context root leg.flight.number previous)
      (fun _ => I.Own L legs leg.flight.key) ⟨I.Broken L leg.flight legs, I.Cut L⟩ := by
  refine .point fun s hs => .bindKnown (ViewM.key_meets s) ?_
  obtain ⟨v, w⟩ := s
  have hkey : v.key = leg.flight.key := hs.onKey
  dsimp only
  rw [hkey]
  let job : Job := ⟨leg.flight.key, leg.transition.action, context, leg.transition.sideEffects,
    .finish leg.flight.number leg.transition root⟩
  have hjob : job.Bears I.allows I.keys I.travels I.roots leg :=
    ⟨⟨rfl, hs.key, ht.sideEffects, fun _ _ _ h => by cases h; exact ht,
      fun _ _ p h => by cases h; exact hobeys p rfl⟩, hopened, hcontext, root, rfl, hroot⟩
  have hown {legs : List Leg} {w' : World} (h : I.Base (I.Past L v) legs w') :
      I.Own L legs leg.flight.key (v, w') := ⟨hkey, hs.key, h⟩
  refine .bind (M := fun r s' => s'.1 = v ∧ I.Handed (I.Past L v) leg legs r s'.2) ?_ fun r => ?_
  · refine ViewM.ofEngine_meets fun v' => .point fun _ h => ?_
    cases h
    exact (dispatch_meets hstart hengine (Past.lasting hL v) hjob).mono (fun _ h => h ▸ hs.base)
      (fun _ _ h => ⟨rfl, h⟩) (fun _ _ h => h) fun _ h => h.of_past
  · match r with
    | .ok () => exact .pure fun ⟨v', w'⟩ ⟨hv, h⟩ => by cases hv; exact hown h
    | .error (.continuation e) =>
        refine .throw fun ⟨v', w'⟩ ⟨hv, he, hexcuse, hcaused, leg', hflight, h⟩ => ?_
        cases hv
        exact ⟨EngineError.isNotAllowed_of_isOfStore he, .inr ⟨leg', hflight, hcaused, he, hexcuse, hown h⟩⟩
    | .error (.rejected reason) =>
        refine (Meets.assume (P := I.Own L (leg :: legs) leg.flight.key) fun hrefuses => ?_).pre
          fun ⟨v', w'⟩ ⟨hv, hrefuses, h⟩ => ⟨hrefuses, by cases hv; exact hown h⟩
        refine .bind ((abort_meets leg hL previous reason hopened).mono (fun _ h => h) (fun _ _ h => h)
          (fun _ _ h => h.broken) fun _ h => h) fun _ => .throw fun _ h => ?_
        exact ⟨rfl, .inl ⟨h.1, hrefuses, h.2⟩⟩

/-- A start that has the lock never says that it is not allowed. -/
theorem launch_meets (ht : t.Obeys I.allows) (hobeys : ∀ p, root = some p → p.Obeys I.allows)
    (hroot : I.roots root) (hcontext : I.travels context) :
    Meets (I.Locked L legs k number root context t) (t.launch engine start context root)
      (fun _ => I.Own L legs k) ⟨I.Broken L ⟨number, k⟩ legs, I.Cut L⟩ := by
  let leg : Leg := ⟨⟨number, k⟩, t, []⟩
  unfold Transition.launch
  refine .bind (recordStart_meets hL hcontext hroot) fun n => .assume fun hn => ?_
  subst hn
  refine .bind (M := fun _ s => I.Own L (leg.after [.locked] :: legs) k s ∧ I.Informed s) ?_ fun _ => ?_
  · refine t.report_tells fun v w ⟨h, hinformed⟩ => ⟨?_, hinformed⟩
    rw [h.lookup]
    have htold : I.holds (leg.after [.locked] :: legs) (w.emit (leg.event .locked)) :=
      I.told .locked nofun nofun h.holds
    exact h.noted hL htold
  refine .bind ((enter_meets (leg.after [.locked]) hL).mono (fun _ h => h) (fun _ _ h => h)
    (fun _ _ h => h.broken) fun _ h => h) fun previous => .pick fun c => ?_
  exact handOver_meets hstart hengine hL ((leg.after [.locked]).after _) ht ⟨⟨c⟩, rfl⟩ hobeys hroot
    hcontext previous

end

/-- A start ends with nothing under way, or with an error that leaves its own transition. -/
theorem executeWith_minds (hstart : I.Minds start) (hengine : engine.Obeys I.allows) :
    I.Minds (Transition.executeWith engine start) := by
  intro L legs k t root context number free hL ht hobeys hroot hcontext
  have hreading : Reading (I.Ready L legs k number free root context t) := Ready.reading hL
  refine .bind (ViewM.isLocked_answers hreading engine ?_) fun locked => ?_
  · exact fun v w call e _ h hsick => .inl ⟨(hreading.failing call e h).own,
      fun _ => .inl (I.lasting (w := w) (List.suffix_cons _ _) (h.own.sick hsick))⟩
  extract_lets go rest
  have hgo : Meets (I.Locked L legs k number root context t) (go ()) (fun _ => I.Own L legs k)
      ⟨I.Stuck L legs k number free, I.Cut L⟩ := by
    refine (launch_meets hstart hengine hL ht hobeys hroot hcontext).mono (fun _ h => h) (fun _ _ h => h) ?_
      fun _ h => h
    exact fun _ _ h => h.left.imp_left fun h => ⟨h.1, fun _ => .inr h.2.1⟩
  have hrest (taken : Bool) : Meets (I.Tried L legs k number free root context t taken) (rest taken)
      (fun _ => I.Own L legs k) ⟨I.Stuck L legs k number free, I.Cut L⟩ := by
    cases taken with
    | true => exact hgo
    | false =>
        refine .bind (M := fun _ s => I.Own L legs k s ∧ (free → I.excuse s.2)) ?_ fun _ => ?_
        · refine t.report_tells fun v w h => ⟨?_, fun hfree => ?_⟩
          · exact h.1.noted hL (I.turnedAway t.action (h.1.lookup ▸ h.1.key) h.1.holds)
          · exact I.lasting (w := w) (List.suffix_cons _ _) (h.2 hfree)
        · exact .bind (M := fun _ _ => False) (.throw fun _ h => .inl ⟨h.1, fun hfree => .inl (h.2 hfree)⟩)
            fun _ => .absurd
  split
  · rename_i hlocked
    refine .bind (.pure fun s h => ⟨h.1.own, fun hfree => ?_⟩) hrest
    have hheld := h.1.free hfree
    rw [← h.1.own.onKey, ← h.2, hlocked] at hheld
    cases hheld
  · exact .bind ((lock_meets hL).pre fun _ h => h.1) hrest

theorem execute_minds (hengine : engine.Obeys I.allows) (depth : Nat) :
    I.Minds (Transition.execute engine depth) := by
  induction depth with
  | zero =>
      intro L legs k t root context number free hL _ _ _ _
      exact ViewM.ofEngine_meets fun v => EngineM.tooDeep_meets fun w h => h.own.world.cut
  | succ depth ih => exact executeWith_minds ih hengine

/-! ## Invocations -/

section

variable (I) {depth : Nat} {p : Process} {action : String} {user : Option Caller} {context : Context}

/-- An invocation that fails leaves nothing under way, or the transition whose start failed. -/
theorem invoke_stuck (hengine : engine.Obeys I.allows) (hp : p.Obeys I.allows) (hroot : I.roots (some p))
    (hcontext : I.travels (context.withUser user)) {v v' : View} {w w' : World} {e : EngineError}
    (hkey : I.keys v.key) (hholds : I.holds [] w) (hexcuse : I.excuse w)
    (h : EngineM.outcome ((p.invoke engine depth action user context).run.run v) w =
      (some (.error e, v'), w')) :
    I.holds [] w' ∨ ∃ leg, leg.flight = ⟨w.starts, v.key⟩ ∧ I.holds [leg] w' ∧
      p.StartFails engine (Transition.execute engine depth) action (context.withUser user) (v, w) e (v', w') := by
  have hown : I.Own (fun _ => True) [] v.key (v, w) :=
    ⟨rfl, hkey, hholds, ⟨trivial, .inr hexcuse⟩, .inl (Nat.zero_le _)⟩
  rcases (invokeWith_fails (execute_minds hengine depth) (fun _ _ _ h => h) hp hroot action hcontext (.inl rfl) hown
    v w rfl).1 _ w' h with h | ⟨⟨leg, hflight, -, h⟩, hfails⟩
  · exact .inl h.holds
  · exact .inr ⟨leg, hflight, h.own.holds, hfails⟩

end

end Course

end Workflow
