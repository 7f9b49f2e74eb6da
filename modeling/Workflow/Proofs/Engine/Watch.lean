import Workflow.Proofs.Engine.Stillness

/-!
# Watching the writes of a state

A watch says something of the world and of what views remember, and how writes bear on it: those of commands,
and those of transitions, each of which is followed by its event, or is lost to it when the entity cannot be
read anew. It says nothing of locks, jobs and executors, for which the watched writes do not depend on them.
-/

namespace Workflow

/-- The world when a transition has written the state and read it anew. -/
def World.rewrite (w : World) (entities : EntityStore) (k : StateKey) (value : String) : World :=
  (w.write entities k (.str value)).struck .fetch

theorem View.Recalls.unique {v : View} {state state' : String} (h : v.Recalls state)
    (h' : v.Recalls state') : state = state' := by
  obtain ⟨e, he, hstate⟩ := h
  obtain ⟨e', he', hstate'⟩ := h'
  cases he.symm.trans he'
  cases hstate.symm.trans hstate'
  rfl

/-! ## Writing and reading anew -/

namespace ViewM

variable {X : Exits (View × World)}

theorem refresh_rereads {Q : Entity → View × World → Prop} (s : View × World) (e : Entity)
    (he : s.2.entities.find? s.1.key.kind s.1.key.id = some e)
    (hlost : ∀ m, (Fault.strike .fetch s.2.faults).1 = some (.fails m) →
      X.error (.store m) (s.1, s.2.failing .fetch (.store m)))
    (hQ : Q e (s.1.remember e, s.2.struck .fetch)) :
    Meets (fun s' => s' = s) refresh Q X := by
  refine .bindKnown (key_meets s) ?_
  refine .bindKnown (a := e) (t := (s.1, s.2.struck .fetch)) (ofCall_meets fun v => ?_) ?_
  · apply CallM.ofEntities_strikes
    · intro w m hs hstrike
      cases hs
      exact hlost m hstrike
    · intro w e' hs he'
      cases hs
      exact nomatch he.symm.trans (EntityStore.fetch_eq_error he').1
    · intro w e' hs he'
      cases hs
      exact ⟨Option.some.inj ((EntityStore.fetch_eq_ok he').symm.trans he), rfl⟩
  · refine .bind (M := fun _ s' => s' = (s.1.remember e, s.2.struck .fetch)) ?_ ?_
    · exact modifyView_meets fun v w h => by cases h; rfl
    · exact fun _ => .pure fun _ h => h ▸ hQ

/-- The write of a state is refused, or lost to the view that cannot read it anew, or done. -/
theorem setState_rewrites {Q : Unit → View × World → Prop} (s : View × World) (value : String)
    (hrefused : ∀ e, X.error e (s.1, s.2.failing .setField e))
    (hlost : ∀ entities m, s.2.entities.setField s.1.key (.str value) = .ok entities →
      (Fault.strike .fetch (s.2.struck .setField).faults).1 = some (.fails m) →
      X.error (.store m)
        (s.1, ((s.2.struck .setField).rewrite entities s.1.key value).record (.failed .fetch (.store m))))
    (hdone : ∀ entities e, s.2.entities.setField s.1.key (.str value) = .ok entities →
      entities.find? s.1.key.kind s.1.key.id = some e →
      Q () (s.1.remember e, (s.2.struck .setField).rewrite entities s.1.key value)) :
    Meets (fun s' => s' = s) (setState value) Q X := by
  refine .bindKnown (key_meets s) (.bindKnown (key_meets s) ?_)
  let written (entities : EntityStore) : View × World :=
    (s.1, (s.2.struck .setField).write entities s.1.key (.str value))
  refine .bind (M := fun _ s' => ∃ entities, s.2.entities.setField s.1.key (.str value) = .ok entities ∧
    s' = written entities) (ofCall_meets fun v => ?_) fun _ => ?_
  · refine .bind (M := fun entities w => s.2.entities.setField s.1.key (.str value) = .ok entities ∧
      (v, w) = (s.1, s.2.struck .setField)) (CallM.ofEntities_strikes ?_ ?_ ?_) fun entities => ?_
    · intro w m hs hstrike
      cases hs
      exact hrefused _
    · intro w e hs _
      cases hs
      exact hrefused e
    · intro w entities hs hset
      cases hs
      exact ⟨hset, rfl⟩
    · refine CallM.modify_meets fun w h => ⟨entities, h.1, ?_⟩
      cases h.2
      rfl
  · refine .pick fun entities => .assume fun hset => ?_
    obtain ⟨e, he⟩ := EntityStore.find?_of_setField hset
    have hreread := EntityStore.find?_setField_self hset he
    refine .bind (refresh_rereads (Q := Q ∘ fun _ => ()) (written entities) _ hreread ?_ ?_) fun _ =>
      .pure fun _ h => h
    · exact fun m hstrike => hlost entities m hset hstrike
    · exact hdone entities _ hset hreread

end ViewM

/-! ## Watches -/

/--
What is said of the world is `holds`. A view of a field `keeps` what it remembers of it whatever others do, and
`sees` it rightly as long as no one else writes. On one of the `keys` run the transitions that it `serves`, whose
commands are `allowed` what they do; a state is `legit` where a transition may write it.
-/
structure Watch (engine : Engine) where
  holds : World → Prop
  keys : StateKey → Prop
  serves : StateKey → Transition → Prop
  allows : StateKey → Op → Prop
  keeps : View → Prop
  sees : View → World → Prop
  legit : StateKey → String → Prop
  /-- No store call is to fail. -/
  calm : Prop
  faultless : ∀ {w}, calm → holds w → w.faults = []
  obeys : ∀ {k t}, serves k t → t.Obeys (allows k)
  invoked : ∀ {k process target action data p}, allows k (.invoke process target action data) →
    engine.processes.lookup process = some p → keys target ∧ ∀ t ∈ p.allTransitions, serves target t
  writes : ∀ {k t value}, serves k t → value ∈ t.writes → legit k value
  recalled : ∀ {v : View} {state}, keeps v → v.Recalls state → legit v.key state
  fresh : ∀ {v : View}, v.memo = none → keeps v ∧ ∀ w, sees v w
  seen : ∀ {v w w'}, w'.entities = w.entities → sees v w → sees v w'
  read : ∀ {v : View} {w e}, w.entities.find? v.key.kind v.key.id = some e → holds w →
    keeps (v.remember e) ∧ sees (v.remember e) w
  quiet : ∀ {k w w'}, keys k → Quiet engine k w w' → holds w → holds w'
  queued : ∀ {w job}, keys job.key → holds w → holds { w with queue := w.queue ++ [job] }
  pooled : ∀ {w job}, keys job.key → holds w → holds { w with pool := w.pool ++ [job] }
  switched : ∀ {w} executor, holds w → holds { w with executor := executor }
  wrote : ∀ {k op field value w entities}, keys k → allows k op → op.writes? = some (field, value) →
    w.entities.setField { k with field := field } value = .ok entities → holds w →
    holds (w.write entities { k with field := field } value)
  removed : ∀ {k w}, keys k → allows k .removeEntity → holds w → holds (w.remove k.kind k.id)
  changed : ∀ {v : View} {w entities value source} action phase, keys v.key → legit v.key value → sees v w →
    (calm → v.memo.isSome ∧ ∀ state, v.Recalls state → source = some state) →
    w.entities.setField v.key (.str value) = .ok entities → holds w →
    holds ((w.rewrite entities v.key value).emit ⟨v.key, action, .stateChanged source value phase⟩)
  lost : ∀ {k w entities value m}, keys k → legit k value →
    w.entities.setField k (.str value) = .ok entities →
    (Fault.strike .fetch w.faults).1 = some (.fails m) → holds w → holds (w.rewrite entities k value)

namespace Watch

/-- What a watch that asks nothing of views says of one. -/
theorem unasked : True ∧ ∀ _ : World, True :=
  ⟨trivial, fun _ => trivial⟩

variable {engine : Engine} (I : Watch engine)

def Serves (k : StateKey) (p : Process) : Prop :=
  ∀ t ∈ p.allTransitions, I.serves k t

/-- The commands and the transition of the job are such as run on its field. -/
structure Carries (job : Job) : Prop where
  key : I.keys job.key
  steps : ∀ c ∈ job.steps, c.body.All (I.allows job.key)
  transition : ∀ n t root, job.continuation = .finish n t root → I.serves job.key t
  root : ∀ n t p, job.continuation = .finish n t (some p) → I.Serves job.key p

/-- What is said of the world is true of it. A watch on all fields is also on the jobs that wait. -/
structure Base (w : World) : Prop where
  holds : I.holds w
  jobs : ∀ job ∈ w.pending, (∀ k, I.keys k) → I.Carries job

/-- The same, with a view of the field. -/
structure Own (k : StateKey) (s : View × World) : Prop where
  base : I.Base s.2
  onKey : s.1.key = k
  keeps : I.keeps s.1

/-- The same, with a view that sees the field as it is. -/
structure Eye (k : StateKey) (s : View × World) : Prop extends I.Own k s where
  sees : I.sees s.1 s.2

def exits (k : StateKey) : Exits (View × World) :=
  ⟨fun _ => I.Own k, I.holds⟩

variable {I} {k : StateKey}

theorem exits_back : (I.exits k).Back (I.Eye k) :=
  fun _ _ h => h.toOwn

theorem Base.next {w w' : World} (h : I.Base w) (hholds : I.holds w') (hpending : w'.pending = w.pending) :
    I.Base w' :=
  ⟨hholds, hpending ▸ h.jobs⟩

theorem Base.fresh {w : World} (h : I.Base w) (k : StateKey) : I.Eye k (.fresh k, w) :=
  have hfresh := I.fresh (v := .fresh k) rfl
  ⟨⟨h, rfl, hfresh.1⟩, hfresh.2 w⟩

theorem Own.next {v : View} {w w' : World} (h : I.Own k (v, w)) (hholds : I.holds w')
    (hpending : w'.pending = w.pending) : I.Own k (v, w') :=
  ⟨h.base.next hholds hpending, h.onKey, h.keeps⟩

theorem Own.reread {v : View} {w : World} {e : Entity} (h : I.Own k (v, w))
    (he : w.entities.find? v.key.kind v.key.id = some e) : I.Eye k (v.remember e, w) :=
  have hread := I.read he h.base.holds
  ⟨⟨h.base, h.onKey, hread.1⟩, hread.2⟩

section

variable (hk : I.keys k)

include hk

theorem Own.still : Still engine k (I.Own k) where
  onKey h := h.onKey
  quiet hquiet h := h.next (I.quiet hk hquiet h.base.holds) hquiet.pending
  reread he h := (h.reread he).toOwn

theorem Eye.still : Still engine k (I.Eye k) where
  onKey h := h.onKey
  quiet hquiet h := ⟨(Own.still hk).quiet hquiet h.toOwn, I.seen hquiet.entities h.sees⟩
  reread he h := h.toOwn.reread he

/-! ## Writes of transitions -/

/-- The state that a write is told to change is the one that the view sees, as far as there is one. -/
theorem source_meets :
    Meets (I.Eye k) (try some <$> ViewM.memoizedState catch _ => pure none : ViewM (Option String))
      (fun source s => I.Eye k s ∧ (I.calm → s.2.entities.find? k.kind k.id = none ∨
        (s.1.memo.isSome ∧ ∀ state, s.1.Recalls state → source = some state))) (I.exits k) := by
  refine .tryCatch (E := fun _ s => I.Eye k s ∧ (I.calm → s.2.entities.find? k.kind k.id = none ∨
    (s.1.memo.isSome ∧ ∀ state, s.1.Recalls state → none = some state))) (.map ?_ fun _ _ h => h)
    fun _ => .pure fun _ h => h
  refine (ViewM.memoizedState_meets (Eye.still hk).viewing.reading ?_ ?_).post ?_
  · intro v w call e _ h hsick
    refine ⟨(Eye.still hk).viewing.reading.failing call e h, fun hcalm => .inl ?_⟩
    obtain rfl : v.key = k := h.onKey
    cases hfound : w.entities.find? v.key.kind v.key.id with
    | none => exact hfound
    | some e => exact absurd ⟨I.faultless hcalm h.base.holds, by simp [hfound]⟩ hsick
  · intro e s _ h hsome hno
    exact ⟨h, fun _ => .inr ⟨hsome, fun state hstate => absurd ⟨state, hstate⟩ hno⟩⟩
  · intro state s h
    obtain ⟨e, he, -⟩ := h.2
    exact ⟨h.1, fun _ => .inr ⟨by simp [he], fun state' hstate' => congrArg some (h.2.unique hstate')⟩⟩

theorem writeState_meets (t : Transition) {value : String} (hlegit : I.legit k value) (phase : Phase) :
    Meets (I.Eye k) (t.writeState value phase) (fun _ => I.Eye k) (I.exits k) := by
  unfold Transition.writeState
  refine .bind (source_meets hk) fun source => .point fun s hs => ?_
  obtain ⟨v, w⟩ := s
  obtain ⟨heye, hsource⟩ := hs
  obtain rfl : v.key = k := heye.onKey
  have hrefused := (Eye.still hk).quiet (.struck .setField) heye
  have hholds := hrefused.base.holds
  refine .bind (M := fun _ s' => ∃ entities e, w.entities.setField v.key (.str value) = .ok entities ∧
    entities.find? v.key.kind v.key.id = some e ∧
    s' = (v.remember e, (w.struck .setField).rewrite entities v.key value)) ?_ fun _ => ?_
  · apply ViewM.setState_rewrites (v, w)
    · exact fun e => (Own.still hk).quiet (.remarked _ rfl) hrefused.toOwn
    · intro entities m hset hstrike
      have hlost := I.lost (w := w.struck .setField) hk hlegit hset hstrike hholds
      exact (Own.still hk).quiet (.remarked _ rfl) (heye.toOwn.next hlost rfl)
    · exact fun entities e hset he => ⟨entities, e, hset, he, rfl⟩
  · apply t.report_tells
    rintro v' _ ⟨entities, e, hset, he, h⟩
    cases h
    obtain ⟨e', he'⟩ := EntityStore.find?_of_setField hset
    have hknown (hcalm : I.calm) := (hsource hcalm).resolve_left fun hnone => nomatch he'.symm.trans hnone
    have hchanged := I.changed (w := w.struck .setField) t.action phase hk hlegit hrefused.sees hknown hset
      hholds
    exact (heye.toOwn.next hchanged rfl).reread he

theorem enter_meets {t : Transition} (ht : I.serves k t) :
    Meets (I.Eye k) t.enter
      (fun previous s => I.Eye k s ∧ ∀ state, previous = some state → I.legit k state) (I.exits k) := by
  unfold Transition.enter
  split
  · exact .pure fun s h => ⟨h, nofun⟩
  · rename_i value hvalue
    have hlegit : I.legit k value := I.writes ht (Transition.mem_writes.2 (.inr (.inl hvalue)))
    refine .bind (ViewM.memoizedState_meets (Eye.still hk).viewing.reading
      ((Eye.still hk).takes exits_back) fun _ _ _ h _ _ => h.toOwn) fun previous => ?_
    refine .point fun s hs => ?_
    have hprevious : I.legit k previous := by
      obtain rfl := hs.1.onKey
      exact I.recalled hs.1.keeps hs.2
    refine .bind ((writeState_meets hk t hlegit _).pre fun _ h => h ▸ hs.1) fun _ => ?_
    refine .pure fun s' h => ⟨h, ?_⟩
    rintro _ ⟨⟩
    exact hprevious

theorem abort_meets {t : Transition} (ht : I.serves k t) {previous : Option String}
    (hprevious : ∀ state, previous = some state → I.legit k state) (reason : String) (number : Option Nat) :
    Meets (I.Eye k) (t.abort engine previous reason number) (fun _ => I.Eye k) (I.exits k) := by
  apply t.abort_steps ((Eye.still hk).release_meets exits_back t number)
    fun kind hkind => (Eye.still hk).report_meets t kind hkind
  intro value hvalue
  apply writeState_meets hk
  cases hfailed : t.failed with
  | none => exact hprevious value (by simpa [hfailed] using hvalue)
  | some failed =>
      have heq : failed = value := by simpa [hfailed] using hvalue
      exact I.writes ht (Transition.mem_writes.2 (.inr (.inr (heq ▸ hfailed))))

end

end Watch

end Workflow
