import Workflow.Proofs.Engine.Underway
import Workflow.Proofs.LockLeaks
import Workflow.Proofs.Refusals

/-!
# Locks that stay in the way of a retry

An invocation whose error comes from a store call may be made again. The field is locked by then only if the
invocation itself took the lock and the call failed before the release. Where commands leave locks alone and
start nothing, the lock is that of the transition whose start gave the error, or of one further down, where a
store call failed as well, which was told right away.
-/

namespace Workflow

/-! ## What was taken and not released -/

/-- The last that was done to the lock since an earlier world is that it was taken. -/
def World.Retains (lockKey : String) (earlier w : World) : Prop :=
  ∃ new, w.journal = new ++ earlier.journal ∧ new.findSome? (·.entry.turns? lockKey) = some true

/-- Of a lock that was free in an earlier world. -/
def World.HeldSince (lockKey : String) (ttl : Nat) (earlier w : World) : Prop :=
  ∃ new, w.journal = new ++ earlier.journal ∧
    w.locks.isHeld lockKey = ((new.findSome? (·.entry.turns? lockKey)).getD false && ttl != 0)

namespace World.HeldSince

variable {lockKey : String} {ttl : Nat} {earlier w w' : World}

theorem recorded {e : Entry} (h : World.HeldSince lockKey ttl earlier w)
    (hlocks : w'.locks.isHeld lockKey =
      ((e.turns? lockKey).map (· && ttl != 0)).getD (w.locks.isHeld lockKey))
    (hjournal : w'.journal = w.journal := by rfl) : World.HeldSince lockKey ttl earlier (w'.record e) := by
  obtain ⟨new, hnew, hheld⟩ := h
  refine ⟨_, World.journal_record hnew hjournal, ?_⟩
  change w'.locks.isHeld lockKey = _
  rw [hlocks, List.findSome?_cons]
  cases e.turns? lockKey with
  | none => exact hheld
  | some taken => rfl

theorem aboutLocks (lockKey : String) (ttl : Nat) (earlier : World) :
    World.AboutLocks ttl (World.HeldSince lockKey ttl earlier) where
  moved h hlocks hjournal := by
    obtain ⟨new, hnew, hheld⟩ := h
    exact ⟨new, hjournal.trans hnew, hlocks ▸ hheld⟩
  noted h he hlocks hjournal := h.recorded (by rw [he, hlocks]; rfl) hjournal
  locked {w} lockKey' hfree h := by
    refine h.recorded ?_
    by_cases heq : lockKey' = lockKey
    · subst heq
      simp [Entry.turns?, LockStore.isHeld_acquire_free _ ttl hfree, LockStore.isLive]
    · simp [Entry.turns?, heq, LockStore.isHeld_acquire_ne _ ttl (Ne.symm heq)]
  unlocked {w} lockKey' h := by
    refine h.recorded ?_
    by_cases heq : lockKey' = lockKey
    · subst heq
      simp [Entry.turns?, LockStore.isHeld_release_self]
    · simp [Entry.turns?, heq, LockStore.isHeld_release_ne _ (Ne.symm heq)]

theorem isHeld_iff (h : World.HeldSince lockKey ttl earlier w) :
    w.locks.isHeld lockKey = true ↔ ttl ≠ 0 ∧ World.Retains lockKey earlier w := by
  obtain ⟨new, hnew, hheld⟩ := h
  rw [hheld, Bool.and_eq_true, bne_iff_ne, and_comm]
  refine and_congr_right fun _ => ⟨fun htaken => ⟨new, hnew, ?_⟩, fun ⟨new', hnew', htaken⟩ => ?_⟩
  · cases hlast : new.findSome? (·.entry.turns? lockKey) with
    | none => rw [hlast] at htaken; cases htaken
    | some taken => rw [hlast] at htaken; exact congrArg some htaken
  · rw [List.append_cancel_right (hnew.symm.trans hnew'), htaken]
    rfl

end World.HeldSince

/-- The last that was done to the lock since an earlier world is that it was taken; then a store call ended with
the error, and that is the last thing that happened. -/
def World.LeftLocked (lockKey : String) (e : EngineError) (earlier w : World) : Prop :=
  ∃ call scene new, w.journal = ⟨.failed call e, scene⟩ :: (new ++ earlier.journal) ∧
    new.findSome? (·.entry.turns? lockKey) = some true

namespace World

variable {lockKey : String} {e : EngineError} {earlier w : World}

theorem LeftLocked.retains (h : World.LeftLocked lockKey e earlier w) : World.Retains lockKey earlier w := by
  obtain ⟨call, scene, new, hjournal, htaken⟩ := h
  exact ⟨⟨.failed call e, scene⟩ :: new, hjournal, htaken⟩

theorem Retains.left (h : World.Retains lockKey earlier w) (hfailed : w.JustFailed e) :
    World.LeftLocked lockKey e earlier w := by
  obtain ⟨new, hnew, htaken⟩ := h
  obtain ⟨call, scene, before, hbefore⟩ := hfailed
  cases new with
  | nil => cases htaken
  | cons m new =>
      obtain ⟨rfl, rfl⟩ := List.cons.inj (hbefore.symm.trans hnew)
      exact ⟨call, scene, new, hbefore, htaken⟩

end World

/-! ## Whose lock it is -/

/-- Behind the start a store call failed, and right behind that an event tells of it on the field of the start. -/
def Started.ToldFailing (s : Started) (later : List Moment) : Prop :=
  ∃ front call e action scene scene' back, later = front ++
    ⟨.emitted ⟨s.key, action, .continuationFailed e.message⟩, scene⟩ :: ⟨.failed call e, scene'⟩ :: back

theorem Started.ToldFailing.cons {s : Started} {later : List Moment} (m : Moment) (h : s.ToldFailing later) :
    s.ToldFailing (m :: later) := by
  obtain ⟨front, call, e, action, scene, scene', back, rfl⟩ := h
  exact ⟨m :: front, call, e, action, scene, scene', back, rfl⟩

/-- A store call that failed while the start had its lock comes behind that start. -/
theorem World.TookLast.failed {p L : String} {s : Started} {later : List Moment} {w : World} {e : EngineError}
    (h : w.TookLast p L s later) (hfailed : w.JustFailed e) :
    ∃ call scene back, later = ⟨.failed call e, scene⟩ :: back := by
  obtain ⟨-, -, m, earlier, hm, hlater⟩ := h
  obtain ⟨call, scene, before, hbefore⟩ := hfailed
  cases later with
  | nil =>
      cases List.head_eq_of_cons_eq (hlater.symm.trans hbefore)
      cases hm
  | cons m' back =>
      obtain rfl := List.head_eq_of_cons_eq (hlater.symm.trans hbefore)
      exact ⟨call, scene, back, rfl⟩

/-- The start of a transition under way that has not told its unlock, or of one whose failure was told. -/
structure Blamed (lockPrefix lockKey : String) (legs : List Leg) (w : World) (s : Started)
    (later : List Moment) : Prop where
  took : w.TookLast lockPrefix lockKey s later
  who : (∃ leg ∈ legs, leg.flight = s.flight ∧ .unlocked ∉ leg.told) ∨ s.ToldFailing later

/-- Jobs are run at once, and a lock that is held is that of a transition known to be stuck or under way. -/
structure Blaming (lockPrefix lockKey : String) (legs : List Leg) (w : World) : Prop where
  inline : w.executor = .inline
  blamed : w.locks.isHeld lockKey = true → ∃ s later, Blamed lockPrefix lockKey legs w s later

namespace Blaming

variable {p L : String} {legs legs' : List Leg} {leg : Leg} {w w' : World} {e : Entry}

theorem moved (h : Blaming p L legs w) (hexecutor : w'.executor = .inline)
    (hlocks : w'.locks = w.locks := by rfl) (hjournal : w'.journal = w.journal := by rfl) :
    Blaming p L legs w' := by
  refine ⟨hexecutor, fun hheld => ?_⟩
  obtain ⟨s, later, ⟨hlock, hlater, m, earlier, hm, heq⟩, hwho⟩ := h.blamed (hlocks ▸ hheld)
  exact ⟨s, later, ⟨hlock, hlater, m, earlier, hm, hjournal.trans heq⟩, hwho⟩

theorem recorded (h : Blaming p L legs w) (he : e.turns? L = none)
    (hwho : ∀ s later, Blamed p L legs w s later →
      (∃ leg ∈ legs', leg.flight = s.flight ∧ .unlocked ∉ leg.told) ∨ s.ToldFailing (⟨e, w'.toScene⟩ :: later))
    (hlocks : w'.locks.isHeld L = w.locks.isHeld L := by rfl) (hjournal : w'.journal = w.journal := by rfl)
    (hexecutor : w'.executor = w.executor := by rfl) : Blaming p L legs' (w'.record e) := by
  refine ⟨hexecutor.trans h.inline, fun hheld => ?_⟩
  obtain ⟨s, later, hs⟩ := h.blamed (hlocks ▸ hheld)
  refine ⟨s, _, hs.took.recorded ?_ hjournal, hwho s later hs⟩
  constructor <;> rintro rfl <;> simp [Entry.turns?] at he

theorem noted (h : Blaming p L legs w) (he : e.turns? L = none := by rfl)
    (hlocks : w'.locks.isHeld L = w.locks.isHeld L := by rfl) (hjournal : w'.journal = w.journal := by rfl)
    (hexecutor : w'.executor = w.executor := by rfl) : Blaming p L legs (w'.record e) :=
  h.recorded he (fun _ _ hs => hs.who.imp_right (.cons _)) hlocks hjournal hexecutor

theorem started (h : Blaming p L legs w) (s : Started) (ttl : Nat) :
    Blaming p L (⟨s.flight, s.transition, []⟩ :: legs)
      (((w.lock (s.key.lockKey p) ttl).takeOff s.key).record (.started s)) := by
  by_cases heq : s.key.lockKey p = L
  · refine ⟨h.inline, fun _ => ⟨s, [], ⟨heq, List.forall_mem_nil _, _, _, rfl, rfl⟩, .inl ?_⟩⟩
    exact ⟨_, List.mem_cons_self .., rfl, List.not_mem_nil⟩
  · have hlocked : Blaming p L legs (w.lock (s.key.lockKey p) ttl) :=
      h.noted (by simp [Entry.turns?, heq]) (w.locks.isHeld_acquire_ne ttl (Ne.symm heq))
    exact hlocked.recorded rfl fun _ _ hs => hs.who.imp List.exists_mem_cons_of_exists (.cons _)

theorem told (h : Blaming p L (leg :: legs) w) (kind : EventKind) (hkind : kind ≠ .unlocked) :
    Blaming p L (leg.after [kind] :: legs) (w.emit (leg.event kind)) := by
  refine h.recorded rfl fun s later hs => hs.who.imp (fun hopen => ?_) (.cons _)
  rw [List.exists_mem_cons_iff] at hopen ⊢
  exact hopen.imp_left fun ⟨hflight, hlocked⟩ => ⟨hflight, by simp [hlocked, hkind.symm]⟩

theorem unlocked (h : Blaming p L (leg :: legs) w) :
    Blaming p L (leg.after [.unlocked] :: legs)
      ((w.unlock (leg.flight.key.lockKey p)).emit (leg.event .unlocked)) := by
  by_cases heq : leg.flight.key.lockKey p = L
  · refine ⟨h.inline, fun hheld => ?_⟩
    have hfree := w.locks.isHeld_release_self L
    rw [← heq] at hheld hfree
    exact absurd (hfree.symm.trans hheld) Bool.false_ne_true
  · have hunlocked : Blaming p L (leg :: legs) (w.unlock (leg.flight.key.lockKey p)) :=
      h.noted (by simp [Entry.turns?, heq]) (w.locks.isHeld_release_ne (Ne.symm heq))
    refine hunlocked.recorded rfl fun s later hs => hs.who.imp (fun hopen => ?_) (.cons _)
    rw [List.exists_mem_cons_iff] at hopen ⊢
    -- The lock in question is another one, and so is the transition that has it.
    have hother : leg.flight ≠ s.flight := fun hflight => heq (by rw [hflight]; exact hs.took.1)
    exact .inr (hopen.resolve_left fun h => hother h.1)

theorem ended (h : Blaming p L (leg :: legs) w) (hover : leg.Over) : Blaming p L legs w := by
  refine ⟨h.inline, fun hheld => ?_⟩
  obtain ⟨s, later, hs⟩ := h.blamed hheld
  refine ⟨s, later, hs.took, hs.who.imp_left fun hopen => ?_⟩
  exact (List.or_exists_of_exists_mem_cons hopen).resolve_left fun h => h.2 hover.unlocked

theorem abandoned (h : Blaming p L (leg :: legs) w) (action : String) {err : EngineError}
    (hfailed : w.JustFailed err) :
    Blaming p L legs (w.emit ⟨leg.flight.key, action, .continuationFailed err.message⟩) := by
  refine h.recorded rfl fun s later hs => ?_
  rcases hs.who with hopen | htold
  · rcases List.or_exists_of_exists_mem_cons hopen with ⟨hflight, -⟩ | hopen
    · obtain ⟨call, scene, back, rfl⟩ := hs.took.failed hfailed
      exact .inr ⟨[], call, err, action, _, scene, back, by rw [hflight]; rfl⟩
    · exact .inl hopen
  · exact .inr (htold.cons _)

end Blaming

/-- The course of runs whose jobs are run at once, with commands that leave locks alone and start nothing. -/
def blaming (engine : Engine) (lockKey : String) : Course engine where
  holds := Blaming engine.config.lockPrefix lockKey
  allows := Op.Allowed False
  keys _ := True
  travels _ := True
  roots := (·.isSome)
  executors := (· = .inline)
  excuse _ := True
  runs := True
  refuses := True
  nests := False
  lasting _ _ := trivial
  excused _ := .inr trivial
  inserted _ _ _ _ := trivial
  failing _ _ _ := trivial
  resumed _ _ := trivial
  varied h := by cases h
  running _ := trivial
  rejecting _ := trivial
  executor h := h.inline
  struck _ h := h.moved h.inline
  remarked he h := h.noted (Entry.turns?_of_isRemark he lockKey)
  wrote _ h := h.noted
  removed _ _ h := h.noted
  switched _ hexecutor h := h.moved hexecutor
  turnedAway _ _ h := h.noted
  started s _ _ _ _ _ _ _ _ h := h.started s _
  told kind _ hkind h := h.told kind hkind
  landed h := h.noted
  unlocked h := h.unlocked
  ended hover h := h.ended hover
  queued _ _ h := by cases h
  pooled _ _ h := by cases h
  reported _ _ _ _ _ h := h.noted
  abandoned action _ _ _ hcaused h := h.abandoned action (hcaused.resolve_right nofun)
  acquired := False.elim
  freed := False.elim
  invoked := False.elim

/-! ## Invocations -/

namespace Process

variable {engine : Engine} {depth : Nat} {action : String} {user : Option Caller} {context : Context}
  {p : Process} {v v' : View} {w w' : World} {e : EngineError}

theorem invoke_retains
    (hfree : w.locks.isHeld (v.key.lockKey engine.config.lockPrefix) = false)
    (h : EngineM.outcome ((p.invoke engine depth action user context).run.run v) w =
      (some (.error e, v'), w')) :
    World.HeldSince (v.key.lockKey engine.config.lockPrefix) engine.config.lockTtl w w' := by
  let I := anyCourse engine (World.HeldSince.aboutLocks (v.key.lockKey engine.config.lockPrefix) _ w)
    (fun _ => True) fun _ => trivial
  have hholds : I.holds [] w := ⟨[], rfl, by rw [hfree]; rfl⟩
  rcases I.invoke_stuck (fun _ _ _ _ c _ => c.body.all_true) (fun _ _ c _ => c.body.all_true) trivial trivial
    trivial hholds trivial h with h | ⟨_, -, h, -⟩
  · exact h
  · exact h

/-- An error that leaves the field locked is that of a store call that failed just before. -/
theorem invoke_justFailed
    (hfree : w.locks.isHeld (v.key.lockKey engine.config.lockPrefix) = false)
    (h : EngineM.outcome ((p.invoke engine depth action user context).run.run v) w =
      (some (.error e, v'), w'))
    (hheld : w'.locks.isHeld (v.key.lockKey engine.config.lockPrefix) = true) : w'.JustFailed e := by
  have hfails : Failing v.key (v.key.lockKey engine.config.lockPrefix) action w e w' :=
    (invoke_fails engine depth action user context p v w v w rfl).1 _ w' h
  have hasked {w₁ : World} (hasked : w.Asked w₁) :
      w₁.locks.isHeld (v.key.lockKey engine.config.lockPrefix) ≠ true := by
    rw [hasked.scene, hfree]
    exact Bool.false_ne_true
  cases hfails with
  | early _ hw => exact (hasked hw hheld).elim
  | locked w₁ _ hw heq =>
      subst heq
      exact (hasked hw hheld).elim
  | late _ _ hleft => exact hleft.resolve_right fun hreleased => by simp [hreleased] at hheld

theorem invoke_blames (hengine : engine.Obeys (Op.Allowed False)) (hp : p.Obeys (Op.Allowed False))
    (hfree : w.locks.isHeld (v.key.lockKey engine.config.lockPrefix) = false) (hinline : w.executor = .inline)
    (h : EngineM.outcome ((p.invoke engine depth action user context).run.run v) w =
      (some (.error e, v'), w'))
    (hheld : w'.locks.isHeld (v.key.lockKey engine.config.lockPrefix) = true) :
    ∃ s later, w'.TookLast engine.config.lockPrefix (v.key.lockKey engine.config.lockPrefix) s later ∧
      ((s.number = w.starts ∧ p.StartFails engine (Transition.execute engine depth) action
        (context.withUser user) (v, w) e (v', w')) ∨ s.ToldFailing later) := by
  let I := blaming engine (v.key.lockKey engine.config.lockPrefix)
  have hholds : I.holds [] w := ⟨hinline, fun hheld => absurd (hfree.symm.trans hheld) Bool.false_ne_true⟩
  rcases I.invoke_stuck hengine hp rfl trivial trivial hholds trivial h with h | ⟨leg, hflight, h, hfails⟩
  · obtain ⟨s, later, htook, ⟨_, hleg, -⟩ | htold⟩ := h.blamed hheld
    · exact absurd hleg List.not_mem_nil
    · exact ⟨s, later, htook, .inr htold⟩
  · obtain ⟨s, later, htook, ⟨_, hleg, heq, -⟩ | htold⟩ := h.blamed hheld
    · cases List.mem_singleton.1 hleg
      exact ⟨s, later, htook, .inl ⟨congrArg Flight.number (heq.symm.trans hflight), hfails⟩⟩
    · exact ⟨s, later, htook, .inr htold⟩

/--
Let an invocation find the lock free and return an error. The lock is held afterwards exactly if a store call
ended with this error while the invocation had taken the lock and not released it, and is free otherwise; leases
that are over at once are the exception. Where jobs are run at once, and commands leave locks alone and start
nothing, a lock that is held is that of the transition whose start gave the error, or of one further down: there,
too, a store call failed behind the lock, and an event told so right away.
-/
theorem invoke_retryable
    (hfree : w.locks.isHeld (v.key.lockKey engine.config.lockPrefix) = false)
    (h : EngineM.outcome ((p.invoke engine depth action user context).run.run v) w =
      (some (.error e, v'), w')) :
    (w'.locks.isHeld (v.key.lockKey engine.config.lockPrefix) = true ↔
      engine.config.lockTtl ≠ 0 ∧ World.LeftLocked (v.key.lockKey engine.config.lockPrefix) e w w') ∧
    (w.executor = .inline → engine.Obeys (Op.Allowed False) → p.Obeys (Op.Allowed False) →
      w'.locks.isHeld (v.key.lockKey engine.config.lockPrefix) = true →
      ∃ s later, w'.TookLast engine.config.lockPrefix (v.key.lockKey engine.config.lockPrefix) s later ∧
        ((s.number = w.starts ∧ p.StartFails engine (Transition.execute engine depth) action
          (context.withUser user) (v, w) e (v', w')) ∨ s.ToldFailing later)) := by
  have hiff := (invoke_retains hfree h).isHeld_iff
  refine ⟨⟨fun hheld => ?_, fun ⟨httl, hleft⟩ => hiff.2 ⟨httl, hleft.retains⟩⟩, fun hinline hengine hp hheld => ?_⟩
  · obtain ⟨httl, hretains⟩ := hiff.1 hheld
    exact ⟨httl, hretains.left (invoke_justFailed hfree h hheld)⟩
  · exact invoke_blames hengine hp hfree hinline h hheld

/-- The locker with an entity store that cannot write once. -/
def unwritable : World :=
  { Locker.world .inline with faults := [⟨.setField, 0, .fails "down"⟩] }

theorem unwritable_outcome : ∃ v' w',
    EngineM.outcome (((Locker.process []).invoke (Locker.engine []) 2 "lock" none .empty).run.run
      (.fresh Locker.field)) unwritable = (some (.error (.store "down"), v'), w') ∧
    w'.locks.isHeld (Locker.field.lockKey Config.standard.lockPrefix) = true := by
  obtain ⟨v', w', ho⟩ := EngineM.outcome_of_fst (show (EngineM.outcome (((Locker.process []).invoke
      (Locker.engine []) 2 "lock" none .empty).run.run (.fresh Locker.field)) unwritable).1.map Prod.fst =
    some (.error (.store "down")) by decide +kernel)
  have hheld : (EngineM.outcome (((Locker.process []).invoke (Locker.engine []) 2 "lock" none .empty).run.run
      (.fresh Locker.field)) unwritable).2.locks.isHeld (Locker.field.lockKey Config.standard.lockPrefix) =
    true := by decide +kernel
  rw [ho] at hheld
  exact ⟨v', w', ho, hheld⟩

theorem unwritable_retryable : ∃ v' w',
    EngineM.outcome (((Locker.process []).invoke (Locker.engine []) 2 "lock" none .empty).run.run
      (.fresh Locker.field)) unwritable = (some (.error (.store "down"), v'), w') ∧
    World.LeftLocked (Locker.field.lockKey Config.standard.lockPrefix) (.store "down") unwritable w' ∧
    ∃ s later,
      w'.TookLast Config.standard.lockPrefix (Locker.field.lockKey Config.standard.lockPrefix) s later ∧
      ((s.number = 0 ∧ (Locker.process []).StartFails (Locker.engine []) (Transition.execute (Locker.engine []) 2)
        "lock" (Context.empty.withUser none) (.fresh Locker.field, unwritable) (.store "down") (v', w')) ∨
        s.ToldFailing later) := by
  obtain ⟨v', w', ho, hheld⟩ := unwritable_outcome
  obtain ⟨hiff, hblames⟩ := invoke_retryable rfl ho
  exact ⟨v', w', ho, (hiff.1 hheld).2, hblames rfl (Locker.engine_obeys (List.forall_mem_nil _))
    (Locker.process_obeys (List.forall_mem_nil _)) hheld⟩

/-- An invocation that fails to write says that it may be made again, and leaves the field locked. -/
theorem invoke_stays_locked :
    ¬ ∀ (engine : Engine) (depth : Nat) (action : String) (user : Option Caller) (context : Context)
      (p : Process) (v v' : View) (w w' : World) (e : EngineError),
      engine.Obeys (fun _ => False) → p.Obeys (fun _ => False) →
      w.locks.isHeld (v.key.lockKey engine.config.lockPrefix) = false → w.executor = .inline →
      EngineM.outcome ((p.invoke engine depth action user context).run.run v) w =
        (some (.error e, v'), w') →
      e.isRetryable = true → w'.locks.isHeld (v.key.lockKey engine.config.lockPrefix) = false := by
  intro h
  obtain ⟨v', w', ho, hheld⟩ := unwritable_outcome
  have hfree := h (Locker.engine []) 2 "lock" none .empty (Locker.process []) (.fresh Locker.field) v'
    unwritable w' (.store "down") (Locker.engine_obeys (List.forall_mem_nil _))
    (Locker.process_obeys (List.forall_mem_nil _)) rfl rfl ho rfl
  exact absurd (hfree.symm.trans hheld) Bool.false_ne_true

end Process

end Workflow
