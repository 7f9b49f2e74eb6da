import Workflow.Engine.Checks
import Workflow.Proofs.Engine.Triples

/-!
# Asking and reading

What questions about a field do to the state: they use up faults, leave entries of themselves and make a
view remember the entity if it does not remember one yet.
-/

namespace Workflow

namespace Entry

/-- Guards were asked, or a store that gave an error. -/
def isQuestion : Entry → Bool
  | condition .. | permission .. | failed .. => true
  | _ => false

/-- Entries about questions and commands, which change nothing. -/
def isRemark : Entry → Bool
  | condition .. | permission .. | failed .. | command .. | note .. => true
  | _ => false

theorem isRemark_of_isQuestion {e : Entry} (h : e.isQuestion = true) : e.isRemark = true := by
  cases e <;> first | rfl | cases h

end Entry

/-- Errors of store calls, and of what they come upon. -/
def EngineError.isOfStore : EngineError → Bool
  | entityNotFound .. | fieldNotFound _ | invalidStateValue _ | store _ | lockStore _ => true
  | _ => false

theorem EngineError.isNotAllowed_of_isOfStore {e : EngineError} (h : e.isOfStore = true) :
    e.isNotAllowed = false := by
  cases e <;> first | rfl | cases h

theorem Fault.ne_nil_of_strike {call : StoreCall} {faults : List Fault} {effect : FaultEffect}
    (h : (strike call faults).1 = some effect) : faults ≠ [] := by
  rintro rfl
  cases h

def World.struck (w : World) (call : StoreCall) : World :=
  { w with faults := (Fault.strike call w.faults).2 }

/-- The call ended with the error. -/
abbrev World.failing (w : World) (call : StoreCall) (e : EngineError) : World :=
  (w.struck call).record (.failed call e)

/-- The last thing that happened is that a store call ended with the error. -/
def World.JustFailed (e : EngineError) (w : World) : Prop :=
  ∃ call scene earlier, w.journal = ⟨.failed call e, scene⟩ :: earlier

theorem World.justFailed (w : World) (call : StoreCall) (e : EngineError) : (w.failing call e).JustFailed e :=
  ⟨_, _, _, rfl⟩

theorem World.journal_record {w w' : World} {e : Entry} {new base : List Moment}
    (hnew : w.journal = new ++ base) (hjournal : w'.journal = w.journal) :
    (w'.record e).journal = ⟨e, w'.toScene⟩ :: new ++ base :=
  congrArg (Moment.mk e w'.toScene :: ·) (hjournal.trans hnew)

def View.remember (v : View) (e : Entity) : View :=
  { v with memo := some e }

def View.Recalls (v : View) (state : String) : Prop :=
  ∃ e, v.memo = some e ∧ e.get? v.key.field = some (.str state)

/-- One of the sources is the state that the view remembers. -/
def Transition.Fits (t : Transition) (v : View) : Prop :=
  ∃ state ∈ t.sources, v.Recalls state

/-- What remains true when questions are asked. -/
structure Reading (P : View × World → Prop) : Prop where
  struck : ∀ {v w} call, P (v, w) → P (v, w.struck call)
  asked : ∀ {v w e}, e.isQuestion = true → P (v, w) → P (v, w.record e)
  remembered : ∀ {v w e}, v.memo = none → w.entities.find? v.key.kind v.key.id = some e →
    P (v, w) → P (v.remember e, w)

theorem Reading.failing {P : View × World → Prop} (hP : Reading P) {v : View} {w : World} (call : StoreCall)
    (e : EngineError) (h : P (v, w)) : P (v, w.failing call e) :=
  hP.asked rfl (hP.struck call h)

/-- No fault hits a call, and the entity of the view is there. -/
def Healthy (s : View × World) : Prop :=
  s.2.faults = [] ∧ (s.2.entities.find? s.1.key.kind s.1.key.id).isSome

namespace Exits

/-- An error may leave the state as it was. -/
def Back (X : Exits (View × World)) (P : View × World → Prop) : Prop :=
  ∀ e s, P s → X.error e s

/-- Failures of store calls are among the errors. -/
def Takes (X : Exits (View × World)) (P : View × World → Prop) : Prop :=
  ∀ v w call e, e.isOfStore = true → P (v, w) → ¬ Healthy (v, w) → X.error e (v, w.failing call e)

theorem Back.takes {X : Exits (View × World)} {P : View × World → Prop} (hX : X.Back P)
    (hP : Reading P) : X.Takes P :=
  fun _ _ call e _ h _ => hX e _ (hP.failing call e h)

end Exits

theorem Reading.and {P Q : View × World → Prop} (hP : Reading P) (hQ : Reading Q) :
    Reading fun s => P s ∧ Q s where
  struck call h := ⟨hP.struck call h.1, hQ.struck call h.2⟩
  asked he h := ⟨hP.asked he h.1, hQ.asked he h.2⟩
  remembered hnone he h := ⟨hP.remembered hnone he h.1, hQ.remembered hnone he h.2⟩

theorem Reading.recalls {P : View × World → Prop} (hP : Reading P) (state : String) :
    Reading fun s => P s ∧ s.1.Recalls state where
  struck call h := ⟨hP.struck call h.1, h.2⟩
  asked he h := ⟨hP.asked he h.1, h.2⟩
  remembered hnone _ h := by
    obtain ⟨e, he, -⟩ := h.2
    exact absurd (hnone.symm.trans he) nofun

theorem Reading.keyed {P : View × World → Prop} (hP : Reading P) (k : StateKey) :
    Reading fun s => P s ∧ s.1.key = k where
  struck call h := ⟨hP.struck call h.1, h.2⟩
  asked he h := ⟨hP.asked he h.1, h.2⟩
  remembered hnone he h := ⟨hP.remembered hnone he h.1, h.2⟩

variable {α : Type}

/-! ## Calls -/

namespace EngineM

variable {P : World → Prop} {X : Exits World}

theorem get_meets : Meets P (get : EngineM World) (fun a w => a = w ∧ P w) X :=
  fun _ hw => ⟨fun _ _ h => by cases h; exact ⟨rfl, hw⟩, nofun⟩

theorem modify_meets {f : World → World} {Q : Unit → World → Prop} (h : ∀ w, P w → Q () (f w)) :
    Meets P (modify f : EngineM Unit) Q X :=
  fun w hw => ⟨fun _ _ ho => by cases ho; exact h w hw, nofun⟩

theorem tooDeep_meets {Q : α → World → Prop} (h : ∀ w, P w → X.cut w) :
    Meets P (tooDeep : EngineM α) Q X :=
  fun w hw => ⟨nofun, fun _ ho => by cases ho; exact h w hw⟩

end EngineM

namespace CallM

variable {P : World → Prop} {X : Exits World}

theorem get_meets : Meets P (get : CallM World) (fun a w => a = w ∧ P w) X :=
  .liftExcept EngineM.get_meets

theorem modify_meets {f : World → World} {Q : Unit → World → Prop} (h : ∀ w, P w → Q () (f w)) :
    Meets P (modify f : CallM Unit) Q X :=
  .liftExcept (EngineM.modify_meets h)

theorem strike_meets (call : StoreCall) :
    Meets P (liftM (strike call) : CallM (Option FaultEffect))
      (fun r s => ∃ w, P w ∧ s = w.struck call ∧ (Fault.strike call w.faults).1 = r) X := by
  refine .liftExcept fun w hw => ⟨fun a w' ho => ?_, nofun⟩
  cases ho
  exact ⟨w, hw, rfl, rfl⟩

theorem fail_meets {call : StoreCall} {e : EngineError} {Q : α → World → Prop}
    (h : ∀ w, P w → X.error e (w.record (.failed call e))) : Meets P (fail call e : CallM α) Q X :=
  .bind (M := fun _ w => ∃ w', P w' ∧ w = w'.record (.failed call e)) (modify_meets fun w hw => ⟨w, hw, rfl⟩)
    fun _ => .throw fun _ ⟨w', hw', heq⟩ => heq ▸ h w' hw'

theorem ofEntities_strikes {call : StoreCall} {run : EntityStore → Except EngineError α}
    {Q : α → World → Prop}
    (hfault : ∀ w m, P w → (Fault.strike call w.faults).1 = some (.fails m) →
      X.error (.store m) (w.failing call (.store m)))
    (herror : ∀ w e, P w → run w.entities = .error e → X.error e (w.failing call e))
    (hok : ∀ w a, P w → run w.entities = .ok a → Q a (w.struck call)) :
    Meets P (ofEntities call run) Q X := by
  refine .bind (strike_meets call) fun r => .point fun _ ⟨w, hw, hs, hr⟩ => ?_
  subst hs
  split
  · exact fail_meets fun _ h => h ▸ hfault w _ hw hr
  · refine .bind get_meets fun a => .point fun _ ⟨ha, hs⟩ => ?_
    subst hs ha
    split
    · exact .pure fun _ h => h ▸ hok w _ hw ‹_›
    · exact fail_meets fun _ h => h ▸ herror w _ hw ‹_›

theorem ofEntities_meets {call : StoreCall} {run : EntityStore → Except EngineError α}
    {Q : α → World → Prop}
    (hfault : ∀ w m, P w → w.faults ≠ [] → X.error (.store m) (w.failing call (.store m)))
    (herror : ∀ w e, P w → run w.entities = .error e → X.error e (w.failing call e))
    (hok : ∀ w a, P w → run w.entities = .ok a → Q a (w.struck call)) :
    Meets P (ofEntities call run) Q X :=
  ofEntities_strikes (fun w m hw hr => hfault w m hw (Fault.ne_nil_of_strike hr)) herror hok

theorem acquire_meets {lockKey : String} {ttl : Nat} {Q : Bool → World → Prop}
    (hfault : ∀ w m, P w → w.faults ≠ [] → X.error (.lockStore m) (w.failing .acquire (.lockStore m)))
    (hmissed : ∀ w, P w → w.faults ≠ [] ∨ w.locks.isHeld lockKey = true → Q false (w.struck .acquire))
    (htaken : ∀ w, P w → w.locks.isHeld lockKey = false →
      Q true ((w.struck .acquire).lock lockKey ttl)) :
    Meets P (acquire lockKey ttl) Q X := by
  refine .bind (strike_meets .acquire) fun r => .point fun _ ⟨w, hw, hs, hr⟩ => ?_
  subst hs
  split
  · exact fail_meets fun _ h => h ▸ hfault w _ hw (Fault.ne_nil_of_strike hr)
  · exact .pure fun _ h => h ▸ hmissed w hw (.inl (Fault.ne_nil_of_strike hr))
  · refine .bind get_meets fun a => .point fun _ ⟨ha, hs⟩ => ?_
    subst hs ha
    have hfree : ((w.struck .acquire).locks.acquire lockKey ttl).1 = !w.locks.isHeld lockKey :=
      LockStore.acquire_fst _ _ _
    dsimp only
    rw [hfree]
    cases hheld : w.locks.isHeld lockKey with
    | true => exact .pure fun _ h => h ▸ hmissed w hw (.inr hheld)
    | false =>
        refine .bind (M := fun _ w' => w' = (w.struck .acquire).lock lockKey ttl) ?_ ?_
        · exact modify_meets fun _ h => h ▸ rfl
        · exact fun _ => .pure fun _ h => h ▸ htaken w hw hheld

theorem release_meets {lockKey : String} {Q : Unit → World → Prop}
    (hfault : ∀ w m, P w → w.faults ≠ [] → X.error (.lockStore m) (w.failing .release (.lockStore m)))
    (hdone : ∀ w, P w → Q () ((w.struck .release).unlock lockKey)) :
    Meets P (release lockKey) Q X := by
  refine .bind (strike_meets .release) fun r => .point fun _ ⟨w, hw, hs, hr⟩ => ?_
  subst hs
  split
  · exact fail_meets fun _ h => h ▸ hfault w _ hw (Fault.ne_nil_of_strike hr)
  · exact modify_meets fun _ h => h ▸ hdone w hw

theorem isHeld_meets {lockKey : String} {Q : Bool → World → Prop}
    (hfault : ∀ w m, P w → w.faults ≠ [] → X.error (.lockStore m) (w.failing .isHeld (.lockStore m)))
    (hrun : ∀ w, P w → Q (w.locks.isHeld lockKey) (w.struck .isHeld)) :
    Meets P (isHeld lockKey) Q X := by
  refine .bind (strike_meets .isHeld) fun r => .point fun _ ⟨w, hw, hs, hr⟩ => ?_
  subst hs
  split
  · exact fail_meets fun _ h => h ▸ hfault w _ hw (Fault.ne_nil_of_strike hr)
  · refine .bind get_meets fun a => .pure fun _ h => ?_
    obtain ⟨rfl, rfl⟩ := h
    exact hrun w hw

end CallM

/-! ## Views -/

variable {P : View × World → Prop} {Q : α → View × World → Prop} {X : Exits (View × World)}

namespace ViewM

theorem ofCall_meets {x : CallM α}
    (hx : ∀ v, Meets (fun w => P (v, w)) x (fun a w => Q a (v, w)) ⟨fun e w => X.error e (v, w), X.cut⟩) :
    Meets P (ViewM.ofCall x) Q X :=
  .ofExcept <| .liftField fun v =>
    Meets.post (m := EngineM) ((hx v).run fun _ h => h) fun r _ h => by cases r <;> exact h

theorem ofEngine_meets {x : EngineM α}
    (hx : ∀ v, Meets (fun w => P (v, w)) x (fun a w => Q a (v, w)) (.only X.cut)) :
    Meets P (ViewM.ofEngine x) Q X :=
  ofCall_meets fun v => .liftExcept (hx v)

theorem getView_meets (s : View × World) :
    Meets (fun s' => s' = s) (getThe View : ViewM View) (fun v s' => v = s.1 ∧ s' = s) X :=
  .liftExcept fun _ => Worldly.pure (m := EngineM) fun _ h => ⟨by rw [← h], h⟩

theorem modifyView_meets {f : View → View} {Q : Unit → View × World → Prop}
    (h : ∀ v w, P (v, w) → Q () (f v, w)) : Meets P (modifyThe View f : ViewM Unit) Q X :=
  .liftExcept fun v => Worldly.pure (m := EngineM) fun w hw => h v w hw

theorem key_meets (s : View × World) :
    Meets (fun s' => s' = s) key (fun k s' => k = s.1.key ∧ s' = s) X :=
  .bindKnown (getView_meets s) <| .pure fun _ h => ⟨rfl, h⟩

theorem lockKey_meets (engine : Engine) (s : View × World) :
    Meets (fun s' => s' = s) (lockKey engine)
      (fun l s' => l = s.1.key.lockKey engine.config.lockPrefix ∧ s' = s) X :=
  .bindKnown (key_meets s) <| .pure fun _ h => ⟨rfl, h⟩

/-- A failing look-up of an entity uses up a fault and does nothing else. -/
theorem fetch_meets {Q : Entity → View × World → Prop} (s : View × World)
    (hX : ∀ e, e.isOfStore = true → ¬ Healthy s → X.error e (s.1, s.2.failing .fetch e))
    (hQ : ∀ e, s.2.entities.find? s.1.key.kind s.1.key.id = some e → Q e (s.1, s.2.struck .fetch)) :
    Meets (fun s' => s' = s) (ofCall (CallM.fetch s.1.key.kind s.1.key.id)) Q X := by
  refine ofCall_meets fun v => CallM.ofEntities_meets ?_ ?_ ?_
  · intro w m hs hw
    cases hs
    exact hX _ rfl fun h => hw h.1
  · intro w e hs he
    cases hs
    obtain ⟨hnone, rfl⟩ := EntityStore.fetch_eq_error he
    exact hX _ rfl fun h => absurd h.2 (by simp [hnone])
  · intro w e hs he
    cases hs
    exact hQ e (EntityStore.fetch_eq_ok he)

theorem refresh_meets {Q : Entity → View × World → Prop} (hX : X.Takes P)
    (hQ : ∀ v w e, P (v, w) → w.entities.find? v.key.kind v.key.id = some e →
      Q e (v.remember e, w.struck .fetch)) :
    Meets P refresh Q X := by
  refine .point fun s hs => .bindKnown (key_meets s) ?_
  refine .bind (M := fun e s' => s.2.entities.find? s.1.key.kind s.1.key.id = some e ∧
    s' = (s.1, s.2.struck .fetch)) (fetch_meets s (hX s.1 s.2 .fetch · · hs) fun _ h => ⟨h, rfl⟩) ?_
  refine fun e => .assume fun he => ?_
  refine .bind (M := fun _ s' => s' = (s.1.remember e, s.2.struck .fetch)) ?_ ?_
  · exact modifyView_meets fun v w h => by cases h; rfl
  · exact fun _ => .pure fun _ h => h ▸ hQ s.1 s.2 e hs he

variable (hP : Reading P)

include hP

theorem entity_meets (hX : X.Takes P) : Meets P entity (fun e s => P s ∧ s.1.memo = some e) X := by
  refine .point fun s hs => .bindKnown (getView_meets s) ?_
  split
  · exact .pure fun _ h => by rw [h]; exact ⟨hs, ‹_›⟩
  · refine (refresh_meets (P := fun s => P s ∧ s.1.memo = none) ?_ ?_).pre fun _ h => h ▸ ⟨hs, ‹_›⟩
    · exact fun v w call e he h => hX v w call e he h.1
    · exact fun v w e h he => ⟨hP.struck .fetch (hP.remembered h.2 he h.1), rfl⟩

/-- An error of the remembered state is that of a store call or of the entity. -/
theorem memoizedState_meets (hX : X.Takes P)
    (hE : ∀ e s, e.isOfStore = true → P s → s.1.memo.isSome → (¬ ∃ state, s.1.Recalls state) →
      X.error e s) :
    Meets P memoizedState (fun state s => P s ∧ s.1.Recalls state) X := by
  refine .bind (M := fun k s => P s ∧ s.1.key = k) ?_ fun k => ?_
  · exact .point fun s hs => (key_meets s).post fun _ _ h => by rw [h.1, h.2]; exact ⟨hs, rfl⟩
  refine .bind (entity_meets (hP.keyed k) fun v w call e he h => hX v w call e he h.1) fun e => ?_
  have hother (s) (h : (P s ∧ s.1.key = k) ∧ s.1.memo = some e)
      (hno : ∀ state, e.get? k.field ≠ some (.str state)) (err : EngineError) (herr : err.isOfStore = true) :
      X.error err s := by
    refine hE err s herr h.1.1 (by rw [h.2]; rfl) fun ⟨state, e', he', hstate⟩ => hno state ?_
    rw [← h.1.2, ← hstate, Option.some.inj (h.2.symm.trans he')]
  split
  · rename_i value hvalue
    cases value with
    | str state => exact .pure fun s h => ⟨h.1.1, e, h.2, h.1.2 ▸ hvalue⟩
    | _ => exact .ofExcept (.pure fun s h => hother s h (by simp [hvalue]) _ rfl)
  · exact .throw fun s h => hother s h (by simp_all) _ rfl

theorem storedState_meets (hX : X.Back P) : Meets P storedState (fun _ => P) X := by
  refine .point fun s hs => .bindKnown (key_meets s) ?_
  refine .bind (M := fun _ => P) ?_ fun value => ?_
  · refine (ofCall_meets fun v => CallM.ofEntities_meets (P := fun w => P (v, w)) ?_ ?_ ?_).pre
      fun _ h => h ▸ hs
    · exact fun w m h _ => hX _ _ (hP.failing .getField _ h)
    · exact fun w e h _ => hX _ _ (hP.failing .getField e h)
    · exact fun w value h _ => hP.struck .getField h
  · refine .ofExcept (.pure fun s' h => ?_)
    cases stateOf s.1.key.field value with
    | error e => exact hX e s' h
    | ok state => exact h

theorem isLocked_answers (engine : Engine) (hX : X.Takes P) :
    Meets P (isLocked engine) (fun yes s => P s ∧
      yes = s.2.locks.isHeld (s.1.key.lockKey engine.config.lockPrefix)) X := by
  refine .point fun s hs => .bindKnown (lockKey_meets engine s) ?_
  refine ofCall_meets fun v => CallM.isHeld_meets ?_ ?_
  · intro w m h hw
    cases h
    exact hX v w .isHeld _ rfl hs fun h => hw h.1
  · intro w h
    cases h
    exact ⟨hP.struck .isHeld hs, rfl⟩

theorem isLocked_meets (engine : Engine) (hX : X.Takes P) :
    Meets P (isLocked engine) (fun _ => P) X :=
  (isLocked_answers hP engine hX).post fun _ _ h => h.1

end ViewM

end Workflow
