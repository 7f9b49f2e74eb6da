import Workflow.Proofs.Engine.Underway
import Workflow.Proofs.Runs

/-!
# Refused calls

An invocation that is not allowed, or that meets an error before it has the lock, has asked questions and
nothing else; where the lock was taken, that is told. No refusal of a transition further down comes up as
one of the invocation, however long the chain and whatever commands, executor and faults do.
-/

namespace Workflow

/-- Questions were asked, which the stores may have failed to answer, and nothing else was done. -/
structure World.Asked (w w' : World) : Prop where
  scene : w'.toScene = w.toScene
  executor : w'.executor = w.executor
  starts : w'.starts = w.starts
  bus : w'.bus = w.bus
  journal : ∃ moments, w'.journal = moments ++ w.journal ∧ ∀ m ∈ moments, m.entry.isQuestion = true

/-- A view of the field on a world of which only questions were asked. -/
structure Asking (k : StateKey) (w : World) (s : View × World) : Prop where
  onKey : s.1.key = k
  asked : w.Asked s.2

theorem World.Asked.refl (w : World) : w.Asked w :=
  ⟨rfl, rfl, rfl, rfl, [], rfl, List.forall_mem_nil _⟩

theorem Asking.reading {k : StateKey} {w : World} : Reading (Asking k w) where
  struck _ h := ⟨h.onKey, h.asked.scene, h.asked.executor, h.asked.starts, h.asked.bus, h.asked.journal⟩
  asked he h := by
    obtain ⟨hkey, hscene, hexecutor, hstarts, hbus, moments, hjournal, hall⟩ := h
    exact ⟨hkey, hscene, hexecutor, hstarts, hbus, _, World.journal_record hjournal rfl,
      List.forall_mem_cons.2 ⟨he, hall⟩⟩
  remembered _ _ h := ⟨h.onKey, h.asked⟩

/-! ## Behind the lock -/

theorem World.AboutLocks.any (ttl : Nat) : World.AboutLocks ttl fun _ => True where
  moved _ _ _ := trivial
  noted _ _ _ _ := trivial
  locked _ _ _ := trivial
  unlocked _ _ := trivial

/-- The lock was taken since an earlier world. -/
def World.Took (lockKey : String) (earlier w : World) : Prop :=
  ∃ new, w.journal = new ++ earlier.journal ∧ ∃ m ∈ new, m.entry = .acquired lockKey

theorem World.Took.lasting (lockKey : String) (earlier : World) :
    Course.Lasting (World.Took lockKey earlier) := by
  rintro w w' ⟨more, hjournal⟩ ⟨new, hnew, m, hm, hentry⟩
  exact ⟨more ++ new, by rw [← hjournal, hnew, List.append_assoc], m, List.mem_append_right _ hm, hentry⟩

theorem World.Asked.took {w w₁ : World} (h : w.Asked w₁) (lockKey : String) (ttl : Nat) :
    World.Took lockKey w (w₁.lock lockKey ttl) := by
  obtain ⟨moments, hjournal, -⟩ := h.journal
  exact ⟨_, World.journal_record hjournal rfl, _, List.mem_cons_self .., rfl⟩

/-- How an invocation may fail. -/
inductive Failing (k : StateKey) (lockKey action : String) (w : World) (e : EngineError) (w' : World) : Prop
  | early (he : ∀ a, e ≠ .notAllowed a .locked) (hasked : w.Asked w')
  | locked (w₁ : World) (he : e = .notAllowed action .locked) (hasked : w.Asked w₁)
      (hw : w' = w₁.emit ⟨k, action, .lockRejected⟩)
  | late (he : e.isNotAllowed = false) (htook : World.Took lockKey w w')
      (hleft : w'.JustFailed e ∨ w'.locks.isHeld lockKey = false)

theorem EngineError.ne_of_isOfStore {e : EngineError} (h : e.isOfStore = true) (action : String)
    (reason : Refusal) : e ≠ .notAllowed action reason := fun heq => by
  rw [heq] at h
  cases h

/-- The course of transitions that are found in processes. -/
def findingCourse (engine : Engine) : Course engine :=
  anyCourse engine (.any _) (·.isSome) fun _ => rfl

section

variable {engine : Engine} {k : StateKey} {w : World} {p : Process} {t : Transition} {context : Context}

theorem ViewM.lock_takes {X : Exits (View × World)}
    (hX : ∀ e s, e.isOfStore = true → Asking k w s → X.error e s) :
    Meets (fun s => Asking k w s ∧ p.Picks context.user s.1 t) (ViewM.lock engine)
      (fun taken s => if taken then
        (findingCourse engine).Locked (World.Took (k.lockKey engine.config.lockPrefix) w) [] k w.starts
          (some p) context t s
        else Asking k w s) X := by
  refine .point fun s ⟨hs, hpicks⟩ => .bindKnown (ViewM.lockKey_meets engine s) ?_
  obtain ⟨v, w'⟩ := s
  obtain rfl : v.key = k := hs.onKey
  have hstruck := Asking.reading.struck .acquire hs
  refine ViewM.ofCall_meets fun v' => CallM.acquire_meets ?_ ?_ ?_
  · intro _ m h _
    cases h
    exact hX _ _ rfl (Asking.reading.failing .acquire _ hs)
  · intro _ h _
    cases h
    exact hstruck
  · intro _ h hfree
    cases h
    refine ⟨w'.struck .acquire, ⟨⟨rfl, trivial, trivial, ⟨trivial, .inr trivial⟩, .inl (Nat.zero_le _)⟩, ?_,
      .inl rfl, hstruck.asked.starts, fun _ => hfree⟩, rfl, hstruck.asked.took _ _⟩
    exact fun _ h => by cases h; exact hpicks

/-- Before the lock nothing has happened, and behind it no error says that something is not allowed. -/
theorem Transition.execute_fails (depth : Nat) :
    Meets (fun s => Asking k w s ∧ p.Picks context.user s.1 t)
      (Transition.execute engine depth t context (some p))
      (fun _ => (findingCourse engine).Own (World.Took (k.lockKey engine.config.lockPrefix) w) [] k)
      ⟨fun e s => Failing k (k.lockKey engine.config.lockPrefix) t.action w e s.2, fun _ => True⟩ := by
  let X : Exits (View × World) :=
    ⟨fun e s => Failing k (k.lockKey engine.config.lockPrefix) t.action w e s.2, fun _ => True⟩
  have hX (e s) (he : e.isOfStore = true) (h : Asking k w s) : X.error e s :=
    .early (e.ne_of_isOfStore he · _) h.asked
  cases depth with
  | zero => exact ViewM.ofEngine_meets fun v => EngineM.tooDeep_meets fun _ _ => trivial
  | succ depth =>
      have hL := World.Took.lasting (k.lockKey engine.config.lockPrefix) w
      have hengine : engine.Obeys (findingCourse engine).allows := fun _ _ _ _ c _ => c.body.all_true
      have hreading := (Asking.reading (k := k) (w := w)).and (p.picks_reading context.user t)
      refine .bind (ViewM.isLocked_meets hreading engine ?_) fun locked => ?_
      · exact fun v w call e he h _ => hX _ _ he (Asking.reading.failing call e h.1)
      extract_lets go rest
      have hrest (taken : Bool) : Meets (fun s => if taken then
          (findingCourse engine).Locked (World.Took (k.lockKey engine.config.lockPrefix) w) [] k w.starts
            (some p) context t s
          else Asking k w s) (rest taken)
          (fun _ => (findingCourse engine).Own (World.Took (k.lockKey engine.config.lockPrefix) w) [] k)
          X := by
        cases taken with
        | true =>
            have hroot : (findingCourse engine).roots (some p) := rfl
            refine (Course.launch_meets (Course.execute_minds hengine depth) hengine hL
              (fun c _ => c.body.all_true) (fun _ _ _ _ c _ => c.body.all_true) hroot trivial).mono
              (fun _ h => h) (fun _ _ h => h) (fun e s h => ?_) fun _ _ => trivial
            rcases h.left with ⟨hown, -, hreleased⟩ | ⟨_, -, hcaused, hsick⟩
            · exact .late h.allowed hown.base.lasts.1 (.inr hreleased)
            · exact .late h.allowed hsick.own.base.lasts.1 (.inl (hcaused.resolve_right nofun))
        | false =>
            refine .bind (M := fun _ s => ∃ w₁, w.Asked w₁ ∧ s.2 = w₁.emit ⟨k, t.action, .lockRejected⟩) ?_
              fun _ => ?_
            · exact t.report_tells fun v w₁ h => ⟨w₁, h.asked, by rw [← h.onKey]⟩
            · exact .bind (M := fun _ _ => False) (.throw fun _ ⟨w₁, hasked, hw⟩ => .locked w₁ rfl hasked hw)
                fun _ => .absurd
      split
      · exact .bind (.pure fun _ h => h.1) hrest
      · exact .bind (ViewM.lock_takes hX) hrest

end

namespace Process

variable {engine : Engine} {depth : Nat} {action : String} {user : Option Caller} {context : Context}
  {p : Process} {v v' : View} {w w' : World} {e : EngineError}

theorem invoke_fails (engine : Engine) (depth : Nat) (action : String) (user : Option Caller)
    (context : Context) (p : Process) (v : View) (w : World) :
    Meets (fun s => s = (v, w)) (p.invoke engine depth action user context) (fun _ _ => True)
      ⟨fun e s => Failing v.key (v.key.lockKey engine.config.lockPrefix) action w e s.2, fun _ => True⟩ := by
  have hreading := Asking.reading (k := v.key) (w := w)
  have hcovers := Exits.covers_of_isOfStore hreading fun _ => True
  unfold Process.invoke Process.invokeWith
  refine .bind ((p.candidates_picks hreading engine user action hcovers).mono ?_ (fun _ _ h => h) ?_
    fun _ h => h) fun ts => ?_
  · rintro _ rfl
    exact ⟨rfl, .refl w⟩
  · exact fun e s h => .early (e.ne_of_isOfStore h.1 · _) h.2.asked
  split
  · rename_i t
    refine .point fun s hs => ?_
    obtain ⟨hmem, rfl, hpicks, -⟩ := hs.2 t rfl
    refine .bind ((Transition.execute_fails depth).pre fun _ h => h ▸ ⟨hs.1, hpicks⟩) fun _ => ?_
    have hacting : Acting ((findingCourse engine).Own _ [] v.key) :=
      Course.Own.acting (World.Took.lasting (v.key.lockKey engine.config.lockPrefix) w)
    refine .bind (ViewM.reread_meets hacting.toViewing ?_) fun _ => .pure fun _ _ => trivial
    exact fun v w call e he h _ => .late (EngineError.isNotAllowed_of_isOfStore he)
      (hacting.reading.failing call e h).base.lasts.1 (.inl (w.justFailed call e))
  · exact .throw fun _ h => .early nofun h.1.asked
  · exact .throw fun _ h => .early nofun h.1.asked

/--
Let an invocation return an error that says that it is not allowed, or an error without having taken the lock.
Then questions were asked, and nothing else was done: the stores, the jobs that wait and the executor are as
before, no command was run and nothing was told but, exactly if the error says that the field is locked, that
the lock was held.
-/
theorem invoke_refused
    (h : EngineM.outcome ((p.invoke engine depth action user context).run.run v) w =
      (some (.error e, v'), w'))
    (hrefused : e.isNotAllowed = true ∨ ¬ World.Took (v.key.lockKey engine.config.lockPrefix) w w') :
    (e = .notAllowed action .locked ∧ ∃ w₁, w.Asked w₁ ∧ w' = w₁.emit ⟨v.key, action, .lockRejected⟩) ∨
      (∀ a, e ≠ .notAllowed a .locked) ∧ w.Asked w' := by
  have hfails : Failing v.key (v.key.lockKey engine.config.lockPrefix) action w e w' :=
    (invoke_fails engine depth action user context p v w v w rfl).1 _ w' h
  cases hfails with
  | early he hasked => exact .inr ⟨he, hasked⟩
  | locked w₁ he hasked hw => exact .inl ⟨he, w₁, hasked, hw⟩
  | late he htook _ =>
      rcases hrefused with hrefused | hrefused
      · exact absurd (he.symm.trans hrefused) Bool.false_ne_true
      · exact absurd htook hrefused

/-- The locker when somebody else is faster at its lock. -/
def raced : World :=
  { Locker.world .queue with faults := [⟨.acquire, 0, .loses⟩] }

theorem raced_refused : ∃ v' w',
    EngineM.outcome (((Locker.process []).invoke (Locker.engine []) 2 "lock" none .empty).run.run
      (.fresh Locker.field)) raced = (some (.error (.notAllowed "lock" .locked), v'), w') ∧
    ∃ w₁, raced.Asked w₁ ∧ w' = w₁.emit ⟨Locker.field, "lock", .lockRejected⟩ := by
  obtain ⟨v', w', ho⟩ := EngineM.outcome_of_fst (show (EngineM.outcome (((Locker.process []).invoke
      (Locker.engine []) 2 "lock" none .empty).run.run (.fresh Locker.field)) raced).1.map Prod.fst =
    some (.error (.notAllowed "lock" .locked)) by decide +kernel)
  refine ⟨v', w', ho, ?_⟩
  rcases invoke_refused ho (.inl rfl) with ⟨-, h⟩ | ⟨h, -⟩
  · exact h
  · exact absurd rfl (h "lock")

end Process

end Workflow
