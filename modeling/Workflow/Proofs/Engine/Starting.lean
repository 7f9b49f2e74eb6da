import Workflow.Proofs.Engine.Custody

/-!
# Custody from the start of a transition

A start takes the flight into its hands together with the lock. With what custody says of jobs, this goes
for starts that start one another to any depth.
-/

namespace Workflow

variable {P : View × World → Prop}

/-- Neither questions nor writes bring a flight to its unlock. -/
theorem Writing.flying (hP : Writing P) (f : Flight) : Writing fun s => P s ∧ f ∈ s.2.flights where
  struck call h := ⟨hP.struck call h.1, h.2⟩
  remarked he h := ⟨hP.remarked he h.1, h.2⟩
  reread he h := ⟨hP.reread he h.1, h.2⟩
  wrote hset h := ⟨hP.wrote hset h.1, h.2⟩
  emitted e h := ⟨hP.emitted e h.1, h.2⟩

namespace Custody

variable {engine : Engine} {I : Custody engine} {φ : Prop} {hands : List Flight} {k : StateKey}
  {X : Exits (View × World)}

theorem Chosen.reading (hP : Reading P) (t : Transition) : Reading fun s => P s ∧ I.Chosen t s where
  struck call h := ⟨hP.struck call h.1, h.2⟩
  asked he h := ⟨hP.asked he h.1, h.2⟩
  remembered hnone he h := by
    refine ⟨hP.remembered hnone he h.1, fun hresolved => ?_⟩
    obtain ⟨⟨-, -, e, hsome, -⟩, -⟩ := h.2 hresolved
    exact absurd (hnone.symm.trans hsome) nofun

variable (I) in
def Locked (φ : Prop) (hands : List Flight) (k : StateKey) (t : Transition) (s : View × World) : Prop :=
  ∃ w, I.Own φ hands k (s.1, w) ∧ I.Chosen t (s.1, w) ∧
    w.locks.isHeld (k.lockKey engine.config.lockPrefix) = false ∧
    s.2 = w.lock (k.lockKey engine.config.lockPrefix) engine.config.lockTtl

variable (I) in
def Tried (φ : Prop) (hands : List Flight) (k : StateKey) (t : Transition) : Bool → View × World → Prop
  | true => I.Locked φ hands k t
  | false => I.Own φ hands k

theorem lock_meets (t : Transition) (hX : X.Back (I.Own φ hands k)) :
    Meets (fun s => I.Own φ hands k s ∧ I.Chosen t s) (ViewM.lock engine) (I.Tried φ hands k t) X := by
  refine .point fun s ⟨hs, ht⟩ => .bindKnown (ViewM.lockKey_meets engine s) ?_
  obtain rfl : s.1.key = k := hs.onKey
  refine ViewM.ofCall_meets fun v => CallM.acquire_meets ?_ ?_ ?_
  · intro w m h _
    cases h
    exact hX _ _ (Own.writing.reading.failing .acquire _ hs)
  · intro w h _
    cases h
    exact Own.writing.struck .acquire hs
  · intro w h hfree
    cases h
    exact ⟨w.struck .acquire, Own.writing.struck .acquire hs, ht, hfree, rfl⟩

theorem recordStart_meets (t : Transition) (context : Context) :
    Meets (I.Locked φ hands k t) (t.recordStart context)
      (fun n s => I.blamed ⟨n, k⟩ ∧ I.Own φ (⟨n, k⟩ :: hands) k s ∧ ⟨n, k⟩ ∈ s.2.flights) X := by
  refine .point fun s hs => .bindKnown (ViewM.getView_meets s) ?_
  refine .bindKnown (ViewM.getWorld_meets s) ?_
  obtain ⟨v, w'⟩ := s
  obtain ⟨w, hown, hchosen, hfree, rfl⟩ := hs
  obtain rfl : v.key = k := hown.onKey
  let w' := w.lock (v.key.lockKey engine.config.lockPrefix) engine.config.lockTtl
  dsimp only
  refine .bindKnown (a := w.starts) (t := (v, w'.takeOff v.key)) ?_ ?_
  · refine ViewM.ofEngine_meets fun v' => .point fun _ h => ?_
    cases h
    exact (EngineM.takeOff_meets v.key w').post fun _ _ h => ⟨h.1, h.2 ▸ rfl⟩
  · let s : Started :=
      ⟨w.starts, t, v.key, (w'.entities.getField v.key).toOption, v.memo, context⟩
    have hstarted := I.started s hown.key rfl hown.base.holds hchosen hfree
    refine .bind (M := fun _ s' => s' = (v, (w'.takeOff v.key).record (.started s))) ?_ fun _ => ?_
    · refine ViewM.ofEngine_meets fun v' => EngineM.modify_meets fun _ h => ?_
      cases h
      rfl
    · refine .pure fun _ h => ?_
      rw [h]
      refine ⟨hstarted.1, hown.next hstarted.2 ?_ rfl, List.mem_cons_self ..⟩
      exact (List.suffix_cons _ _).trans (List.suffix_cons _ _)

section

variable {start : Start} (hstart : I.Minds start) (hengine : engine.Obeys I.Allows)

include hstart hengine

/-- A start that has its flight gives it away with the job, or is stuck with it. -/
theorem handOver_meets {t : Transition} {root : Option Process} {n : Nat} (ht : t.Obeys I.Allows)
    (hroot : ∀ p, root = some p → p.Obeys I.Allows) (hblamed : I.blamed ⟨n, k⟩) (context : Context)
    (previous : Option String) :
    Meets (fun s => I.Own φ (⟨n, k⟩ :: hands) k s ∧ ⟨n, k⟩ ∈ s.2.flights)
      (t.handOver engine start context root n previous) (fun _ => I.Own φ hands k)
      ⟨fun _ => I.Stuck φ hands k, I.Cut⟩ := by
  refine .point fun s ⟨hs, hflying⟩ => .bindKnown (ViewM.key_meets s) ?_
  obtain ⟨v, w⟩ := s
  obtain rfl : v.key = k := hs.onKey
  dsimp only
  let job : Job := ⟨v.key, t.action, context, t.sideEffects, .finish n t root⟩
  have hjob : job.Carries I.Allows I.keys ⟨n, v.key⟩ :=
    ⟨rfl, hs.key, ht.sideEffects, fun _ _ _ h => by cases h; exact ht,
      fun _ _ p h => by cases h; exact hroot p rfl⟩
  -- What the view remembers may have to be excused later on, too.
  let ψ : Prop := φ ∨ ¬ (v.memo.isSome → ∃ state, v.Recalls state)
  have hbase : I.Base ψ (⟨n, v.key⟩ :: hands) w :=
    ⟨hs.base.holds, fun h => h.elim hs.base.past hs.memo.resolve_left, hs.base.jobs⟩
  have hown {hands : List Flight} {w' : World} (h : I.Base ψ hands w') : I.Own φ hands v.key (v, w') := by
    refine ⟨⟨h.holds, fun hφ => h.past (.inl hφ), h.jobs⟩, rfl, hs.key, ?_⟩
    exact (Classical.em (v.memo.isSome → ∃ state, v.Recalls state)).imp_right fun hno => h.past (.inr hno)
  refine .bind (M := fun r s' => s'.1 = v ∧ I.Handed ψ ⟨n, v.key⟩ hands r s'.2) ?_ fun r => ?_
  · refine ViewM.ofEngine_meets fun v' => .point fun _ h => ?_
    cases h
    exact ((dispatch_meets hstart hengine hjob).pre fun _ h => h ▸ ⟨hbase, hflying⟩).post
      fun _ _ h => ⟨rfl, h⟩
  · match r with
    | .ok () =>
        refine .pure fun s h => ?_
        obtain ⟨v', w'⟩ := s
        obtain ⟨rfl, h⟩ := h
        exact hown h
    | .error (.continuation e) =>
        refine .throw fun s h => .inr ⟨⟨n, v.key⟩, rfl, hblamed, ?_⟩
        obtain ⟨v', w'⟩ := s
        obtain ⟨rfl, he, h⟩ := h
        exact ⟨he, hown h⟩
    | .error (.rejected reason) =>
        refine .bind (M := fun _ => I.Own φ hands v.key) ?_ fun _ => .throw fun _ h => .inl h
        refine (abort_meets (t := t) (f := ⟨n, v.key⟩) rfl previous reason).mono ?_ (fun _ _ h => h) ?_ ?_
        · rintro ⟨v', w'⟩ ⟨rfl, h⟩
          exact hown h
        · exact fun _ _ h => .inr ⟨⟨n, v.key⟩, rfl, hblamed, h⟩
        · exact fun _ h => h

/-- A start that meets an error leaves at most the flight that it took, for an excuse. -/
theorem executeWith_minds : I.Minds (Transition.executeWith engine start) := by
  intro φ hands k t root context ht hroot
  have hback : (⟨fun _ => I.Stuck φ hands k, I.Cut⟩ : Exits (View × World)).Back (I.Own φ hands k) :=
    fun _ _ h => .inl h
  have hwriting : Writing (I.Own φ hands k) := Own.writing
  have hchosen := Chosen.reading (I := I) hwriting.reading t
  refine .bind (ViewM.isLocked_meets hchosen engine ?_) fun locked => ?_
  · exact fun v w call e _ h _ => hback _ _ (hchosen.failing call e h).1
  extract_lets go rest
  have hgo (u : Unit) : Meets (I.Locked φ hands k t) (go u) (fun _ => I.Own φ hands k)
      ⟨fun _ => I.Stuck φ hands k, I.Cut⟩ := by
    refine .bind (recordStart_meets t context) fun n => .assume fun hblamed => ?_
    have hown : Writing (I.Own φ (⟨n, k⟩ :: hands) k) := Own.writing
    have hwriting := hown.flying ⟨n, k⟩
    refine .bind (t.report_meets hwriting _) fun _ => ?_
    have hkept : (⟨fun _ => I.Stuck φ hands k, I.Cut⟩ : Exits (View × World)).Back
        (I.Kept φ ⟨n, k⟩ hands k) := fun _ _ h => .inr ⟨⟨n, k⟩, rfl, hblamed, h⟩
    refine .bind (t.enter_meets hwriting ?_ ?_) fun previous => ?_
    · exact fun v w call e he h => Own.takes hkept v w call e he h.1
    · exact fun e s _ h hsome hno => hkept e s (h.1.stateless hsome hno)
    · exact handOver_meets hstart hengine ht hroot hblamed context previous
  have hrest (taken : Bool) : Meets (I.Tried φ hands k t taken) (rest taken) (fun _ => I.Own φ hands k)
      ⟨fun _ => I.Stuck φ hands k, I.Cut⟩ := by
    cases taken with
    | false =>
        refine .bind (M := fun _ => I.Own φ hands k) (t.report_meets Own.writing _) fun _ => ?_
        exact .bind (M := fun _ _ => False) (.throw fun _ h => hback _ _ h) fun _ => .absurd
    | true => exact hgo ()
  split
  · exact .bind (.pure fun _ h => h.1) hrest
  · exact .bind (lock_meets t hback) hrest

end

theorem execute_minds (hengine : engine.Obeys I.Allows) (depth : Nat) :
    I.Minds (Transition.execute engine depth) := by
  induction depth with
  | zero =>
      intro φ hands k t root context _ _
      exact ViewM.ofEngine_meets fun v => EngineM.tooDeep_meets fun w h => ⟨hands, h.1.base.holds⟩
  | succ depth ih => exact executeWith_minds ih hengine

end Custody

end Workflow
