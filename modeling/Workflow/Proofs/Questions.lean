import Workflow.Proofs.Availability
import Workflow.Proofs.Engine.Serving

/-!
# Questions

A walk that is read to its end asks about guards in pre-order, all on one reading of the entity. Permissions are
asked up to the first that is not given, and conditions, behind permissions that are all given, up to the first
that does not hold. Nothing is asked below a node whose guards fail, nor about a transition that is not wanted,
whose sources do not hold the state or whose lock is held.
-/

namespace Workflow

/-! ## What is to be asked -/

/-- The members up to the first that fails, with that one. -/
def upToFailure {α : Type} (check : α → Bool) : List α → List α
  | [] => []
  | a :: as => a :: if check a then upToFailure check as else []

/-- Without a caller no permission is asked for. -/
def Permission.questions (user : Option Caller) (e : Entity) (ps : List Permission) : List Entry :=
  match user with
  | none => []
  | some caller => (upToFailure (·.check e caller) ps).map fun p => .permission p e caller (p.check e caller)

def Condition.questions (e : Entity) (cs : List Condition) : List Entry :=
  (upToFailure (·.check e) cs).map fun c => .condition c e (c.check e)

def guardQuestions (user : Option Caller) (e : Entity) (ps : List Permission) (cs : List Condition) : List Entry :=
  Permission.questions user e ps ++ if Permission.allGiven user e ps then Condition.questions e cs else []

namespace Inquiry

variable (q : Inquiry) (field : String) (held : Bool) (e : Entity)

def questionsAbout (t : Transition) : List Entry :=
  if q.wants t && (e.isIn field t.sources && !held) then guardQuestions q.user e t.permissions t.conditions else []

mutual

/-- Those of a node, then those about its transitions, then those below it. -/
def questions : Process → List Entry
  | ⟨name, conditions, permissions, transitions, nested⟩ =>
    guardQuestions q.user e permissions conditions ++
      if Process.isOpen q.user e ⟨name, conditions, permissions, transitions, nested⟩ then
        transitions.flatMap (q.questionsAbout field held e) ++ questionsIn nested
      else []

def questionsIn : List Process → List Entry
  | [] => []
  | p :: ps => questions p ++ questionsIn ps

end

end Inquiry

/-! ## States while questions are asked -/

def World.recordAll (w : World) (entries : List Entry) : World :=
  entries.foldl World.record w

theorem World.recordAll_append (w : World) (entries entries' : List Entry) :
    w.recordAll (entries ++ entries') = (w.recordAll entries).recordAll entries' :=
  List.foldl_append

theorem World.recordAll_struck (w : World) (entries : List Entry) (call : StoreCall) :
    (w.recordAll entries).struck call = (w.struck call).recordAll entries := by
  induction entries generalizing w with
  | nil => rfl
  | cons entry entries ih => exact ih (w.record entry)

/-- The questions were recorded; the entity was perhaps read, if the view did not remember it. -/
inductive Questioned (e : Entity) (entries : List Entry) : View → World → View → World → Prop
  | kept {v : View} {w : World} : Questioned e entries v w v (w.recordAll entries)
  | read {v : View} {w : World} (h : v.memo = none) :
      Questioned e entries v w (v.remember e) ((w.struck .fetch).recordAll entries)

theorem Questioned.trans {e : Entity} {entries entries' : List Entry} {v v' v'' : View} {w w' w'' : World}
    (h : Questioned e entries v w v' w') (h' : Questioned e entries' v' w' v'' w'') :
    Questioned e (entries ++ entries') v w v'' w'' := by
  cases h with
  | kept =>
      cases h' with
      | kept =>
          rw [← World.recordAll_append]
          exact .kept
      -- The entity was read behind the first questions, which the reading might as well have preceded.
      | read hnone =>
          rw [World.recordAll_struck, ← World.recordAll_append]
          exact .read hnone
  | read hnone =>
      cases h' with
      | kept =>
          rw [← World.recordAll_append]
          exact .read hnone
      | read hnone' => cases hnone'

theorem Fault.mem_strike {call : StoreCall} {faults : List Fault} {f : Fault} (h : f ∈ (strike call faults).2) :
    ∃ f' ∈ faults, f'.call = f.call := by
  induction faults with
  | nil => cases h
  | cons g faults ih =>
      simp only [strike] at h
      split at h
      · split at h
        · exact ⟨f, List.mem_cons_of_mem _ h, rfl⟩
        · rcases List.mem_cons.1 h with rfl | h
          · exact ⟨g, List.mem_cons_self .., rfl⟩
          · exact ⟨f, List.mem_cons_of_mem _ h, rfl⟩
      · rcases List.mem_cons.1 h with rfl | h
        · exact ⟨f, List.mem_cons_self .., rfl⟩
        · obtain ⟨f', hf', hcall⟩ := ih h
          exact ⟨f', List.mem_cons_of_mem _ hf', hcall⟩

/-- The view remembers `e`, or the next call that reads the entity gives it. -/
def View.Shows (v : View) (e : Entity) (w : World) : Prop :=
  v.memo = some e ∨ v.memo = none ∧ w.entities.find? v.key.kind v.key.id = some e ∧
    (Fault.strike .fetch w.faults).1 = none

/-- No call that a walk makes is going to fail: the view shows `e`, and the lock of the field is held or not. -/
structure Responding (engine : Engine) (k : StateKey) (e : Entity) (held : Bool) (v : View) (w : World) : Prop where
  key : v.key = k
  shows : v.Shows e w
  sound : ∀ f ∈ w.faults, f.call ≠ .isHeld
  lock : w.locks.isHeld (k.lockKey engine.config.lockPrefix) = held

namespace Responding

variable {engine : Engine} {k : StateKey} {e : Entity} {held : Bool} {v v' : View} {w w' : World}
  {entries : List Entry}

theorem recordAll (h : Responding engine k e held v w) : Responding engine k e held v (w.recordAll entries) := by
  induction entries generalizing w with
  | nil => exact h
  | cons entry entries ih => exact ih (w := w.record entry) ⟨h.key, h.shows, h.sound, h.lock⟩

theorem questioned (h : Responding engine k e held v w) (hs : Questioned e entries v w v' w') :
    Responding engine k e held v' w' := by
  cases hs with
  | kept => exact h.recordAll
  | read _ =>
      refine recordAll (w := w.struck .fetch) ⟨h.key, .inl rfl, fun f hf => ?_, h.lock⟩
      obtain ⟨f', hf', hcall⟩ := Fault.mem_strike hf
      exact hcall ▸ h.sound f' hf'

end Responding

/-! ## Computations that ask -/

/-- While the stores respond, the computation gives the value and asks these questions. -/
def Asks (engine : Engine) (k : StateKey) (e : Entity) (held : Bool) {α : Type} (m : FieldM α) (a : α)
    (entries : List Entry) : Prop :=
  ∀ v w, Responding engine k e held v w → ∃ v' w', Questioned e entries v w v' w' ∧
    EngineM.outcome (m.run v) w = (some (a, v'), w')

section

variable {engine : Engine} {k : StateKey} {e : Entity} {held : Bool} {α β : Type}

namespace Asks

theorem pure (a : α) : Asks engine k e held (pure a) a [] :=
  fun _ _ _ => ⟨_, _, .kept, rfl⟩

theorem bind {m : FieldM α} {f : α → FieldM β} {a : α} {b : β} {entries entries' : List Entry}
    (hm : Asks engine k e held m a entries) (hf : Asks engine k e held (f a) b entries') :
    Asks engine k e held (m >>= f) b (entries ++ entries') := by
  intro v w hs
  obtain ⟨v', w', hasked, hmo⟩ := hm v w hs
  obtain ⟨v'', w'', hasked', hfo⟩ := hf v' w' (hs.questioned hasked)
  exact ⟨v'', w'', hasked.trans hasked', (EngineM.outcome_bind_some hmo).trans hfo⟩

theorem bindOk {m : ViewM α} {f : α → ViewM β} {a : α} {r : Except EngineError β} {entries entries' : List Entry}
    (hm : Asks engine k e held m.run (.ok a) entries) (hf : Asks engine k e held (f a).run r entries') :
    Asks engine k e held (m >>= f).run r (entries ++ entries') :=
  hm.bind (f := ExceptT.bindCont f) hf

end Asks

namespace EngineM

theorem askConditions_outcome (e : Entity) (cs : List Condition) (w : World) :
    (askConditions e cs).outcome w = (some (Condition.allHold e cs), w.recordAll (Condition.questions e cs)) := by
  induction cs generalizing w with
  | nil => rfl
  | cons c cs ih =>
      have hrecord : (record (.condition c e (c.check e))).outcome w = (some (), w.record _) := rfl
      rw [askConditions, outcome_bind_some hrecord]
      cases hc : c.check e with
      | true => simpa [Condition.questions, Condition.allHold, upToFailure, World.recordAll, hc] using ih _
      | false => simp [Condition.questions, Condition.allHold, upToFailure, World.recordAll, hc]

theorem askPermissions_outcome (e : Entity) (caller : Caller) (ps : List Permission) (w : World) :
    (askPermissions e caller ps).outcome w =
      (some (Permission.allGiven (some caller) e ps), w.recordAll (Permission.questions (some caller) e ps)) := by
  induction ps generalizing w with
  | nil => rfl
  | cons p ps ih =>
      have hrecord : (record (.permission p e caller (p.check e caller))).outcome w = (some (), w.record _) := rfl
      rw [askPermissions, outcome_bind_some hrecord]
      cases hp : p.check e caller with
      | true => simpa [Permission.questions, Permission.allGiven, upToFailure, World.recordAll, hp] using ih _
      | false => simp [Permission.questions, Permission.allGiven, upToFailure, World.recordAll, hp]

end EngineM

namespace ViewM

theorem ofEngine_asks {x : EngineM α} {a : α} {entries : List Entry}
    (h : ∀ w, x.outcome w = (some a, w.recordAll entries)) :
    Asks engine k e held (ofEngine x).run (.ok a) entries :=
  fun v w _ => ⟨v, _, .kept, outcome_ofEngine (h w) v⟩

theorem refresh_passes {v : View} {w : World} (hfound : w.entities.find? v.key.kind v.key.id = some e)
    (hstrike : (Fault.strike .fetch w.faults).1 = none) :
    refresh.outcome v w = (some (.ok e, v.remember e), w.struck .fetch) := by
  have hfetch : EngineM.outcome (CallM.fetch v.key.kind v.key.id).run w = (some (.ok e), w.struck .fetch) := by
    rw [CallM.fetch, CallM.ofEntities_passes hstrike, EntityStore.fetch, hfound]
    rfl
  simp only [refresh, outcome_bind, outcome_key, outcome_ofCall hfetch, outcome_modifyView, outcome_pure,
    View.remember]

theorem entity_asks : Asks engine k e held entity.run (.ok e) [] := by
  intro v w hs
  obtain ⟨key, memo⟩ := v
  rcases hs.shows with hmemo | ⟨hnone, hfound, hstrike⟩
  · cases hmemo
    exact ⟨_, w, .kept, rfl⟩
  · cases hnone
    refine ⟨_, _, .read rfl, ?_⟩
    change entity.outcome ⟨key, none⟩ w = _
    simp only [entity, outcome_bind, outcome_getView]
    exact refresh_passes hfound hstrike

theorem memoizedState_asks {state : String} (hstate : e.get? k.field = some (.str state)) :
    Asks engine k e held memoizedState.run (.ok state) [] := by
  intro v w hs
  obtain ⟨v', w', hasked, hentity⟩ := entity_asks v w hs
  refine ⟨v', w', hasked, ?_⟩
  change memoizedState.outcome v w = _
  change entity.outcome v w = _ at hentity
  simp only [memoizedState, outcome_bind, outcome_key, hentity, hs.key, hstate]
  rfl

theorem isLocked_asks : Asks engine k e held (isLocked engine).run (.ok held) [] := by
  intro v w hs
  refine ⟨v, w, .kept, ?_⟩
  change (isLocked engine).outcome v w = _
  have hheld : EngineM.outcome (CallM.isHeld (k.lockKey engine.config.lockPrefix)).run w = (some (.ok held), w) := by
    rw [CallM.isHeld, ExceptT.run_bind, EngineM.outcome_bind_some (CallM.strike_outcome hs.sound), ← hs.lock]
    rfl
  simp only [isLocked, lockKey, outcome_bind, outcome_key, outcome_pure, hs.key, outcome_ofCall hheld]

theorem conditionsHold_asks (cs : List Condition) :
    Asks engine k e held (conditionsHold cs).run (.ok (Condition.allHold e cs)) (Condition.questions e cs) := by
  cases cs with
  | nil => exact .pure _
  | cons c cs => exact entity_asks.bindOk (ofEngine_asks (EngineM.askConditions_outcome e (c :: cs)))

theorem permissionsHold_asks (user : Option Caller) (ps : List Permission) :
    Asks engine k e held (permissionsHold user ps).run (.ok (Permission.allGiven user e ps))
      (Permission.questions user e ps) := by
  cases user with
  | none => exact .pure _
  | some caller =>
      cases ps with
      | nil => exact .pure _
      | cons p ps => exact entity_asks.bindOk (ofEngine_asks (EngineM.askPermissions_outcome e caller (p :: ps)))

/-- Both kinds of guards, of a node as well as of a transition. -/
theorem guards_asks (user : Option Caller) (ps : List Permission) (cs : List Condition) :
    Asks engine k e held (do
      if ← permissionsHold user ps then conditionsHold cs else return false : ViewM Bool).run
      (.ok (Permission.allGiven user e ps && Condition.allHold e cs)) (guardQuestions user e ps cs) := by
  refine (permissionsHold_asks user ps).bindOk ?_
  cases hgiven : Permission.allGiven user e ps with
  | true => exact conditionsHold_asks cs
  | false => exact .pure _

end ViewM

end

/-! ## The walk -/

namespace Transition

variable {engine : Engine} {k : StateKey} {e : Entity} {held : Bool} {q : Inquiry}

theorem isAvailable_asks {state : String} (hstate : e.get? k.field = some (.str state)) (user : Option Caller)
    (t : Transition) :
    Asks engine k e held (t.isAvailable engine user).run (.ok (!held && t.isOpen user k.field e))
      (if e.isIn k.field t.sources && !held then guardQuestions user e t.permissions t.conditions else []) := by
  have hplace : e.isIn k.field t.sources = t.sources.contains state := by
    rw [Entity.isIn, hstate]
  refine (ViewM.memoizedState_asks hstate).bindOk ?_
  rw [isOpen, hplace]
  cases t.sources.contains state with
  | false =>
      rw [Bool.false_and, Bool.and_false]
      exact .pure _
  | true =>
      refine ViewM.isLocked_asks.bindOk ?_
      cases held with
      | true => exact .pure _
      | false => exact ViewM.guards_asks user t.permissions t.conditions

end Transition

namespace Inquiry

variable {engine : Engine} {k : StateKey} {e : Entity} {held : Bool} (q : Inquiry) {state : String}

theorem walkOwn_asks (hstate : e.get? k.field = some (.str state)) (ts : List Transition) (seen : List Item) :
    Asks engine k e held (q.walkOwn engine .all ts seen)
      (((ts.filter (q.finds k.field held e)).map .ok).reverse ++ seen)
      (ts.flatMap (q.questionsAbout k.field held e)) := by
  induction ts generalizing seen with
  | nil => exact .pure _
  | cons t ts ih =>
      rw [walkOwn, List.flatMap_cons, questionsAbout, List.filter_cons, finds]
      simp only [Appetite.all, Bool.not_true, Bool.false_eq_true, if_false]
      cases q.wants t with
      | false => exact ih seen
      | true =>
          refine (t.isAvailable_asks hstate q.user).bind ?_
          cases !held && t.isOpen q.user k.field e with
          | false => exact ih seen
          | true => simpa using ih (.ok t :: seen)

mutual

theorem walk_asks (hstate : e.get? k.field = some (.str state)) (p : Process) (seen : List Item) :
    Asks engine k e held (q.walk engine .all p seen)
      (((q.listing k.field held e p).map .ok).reverse ++ seen) (q.questions k.field held e p) := by
  match p with
  | ⟨name, conditions, permissions, transitions, nested⟩ =>
      rw [walk, questions, listing, Process.isOpen]
      refine (ViewM.guards_asks q.user permissions conditions).bind ?_
      cases Permission.allGiven q.user e permissions && Condition.allHold e conditions with
      | false => exact .pure _
      | true =>
          have hbelow := (q.walkOwn_asks hstate transitions seen).bind (walkNested_asks hstate nested _)
          simpa using hbelow

theorem walkNested_asks (hstate : e.get? k.field = some (.str state)) (ps : List Process) (seen : List Item) :
    Asks engine k e held (q.walkNested engine .all ps seen)
      (((q.listingIn k.field held e ps).map .ok).reverse ++ seen) (q.questionsIn k.field held e ps) := by
  match ps with
  | [] => exact .pure _
  | p :: ps =>
      have hrest := (walk_asks hstate p seen).bind (walkNested_asks hstate ps _)
      rw [walkNested, questionsIn, listingIn]
      simpa [Appetite.all] using hrest

end

end Inquiry

namespace Process

variable {engine : Engine} {q : Inquiry} {p : Process} {v : View} {w : World} {e : Entity} {state : String}

/-- A walk to the end asks just the questions of the tree, all about the one entity that the view shows, and finds
what is listed. Nothing else happens in the world, but that the entity is read once, if at all, where the view did
not remember it. -/
theorem available_asks (hshows : v.Shows e w) (hstate : e.get? v.key.field = some (.str state))
    (hsound : ∀ f ∈ w.faults, f.call ≠ .isHeld) :
    let held := w.locks.isHeld (v.key.lockKey engine.config.lockPrefix)
    ∃ v' w', EngineM.outcome ((p.available engine q .all).run v) w =
        (some ((q.listing v.key.field held e p).map .ok, v'), w') ∧
      (v' = v ∧ w' = w.recordAll (q.questions v.key.field held e p) ∨
        v.memo = none ∧ v' = v.remember e ∧
          w' = (w.struck .fetch).recordAll (q.questions v.key.field held e p)) := by
  intro held
  have hs : Responding engine v.key e held v w := ⟨rfl, hshows, hsound, rfl⟩
  have hwalk : Asks engine v.key e held (p.available engine q .all) ((q.listing v.key.field held e p).map .ok)
      (q.questions v.key.field held e p) := by
    have hread : Asks engine v.key e held (p.available engine q .all) _ _ :=
      (q.walk_asks hstate p []).bind (f := fun items => pure items.reverse) (.pure _)
    simpa using hread
  obtain ⟨v', w', hasked, hrun⟩ := hwalk v w hs
  refine ⟨v', w', hrun, ?_⟩
  cases hasked with
  | kept => exact .inl ⟨rfl, rfl⟩
  | read hnone => exact .inr ⟨hnone, rfl, rfl⟩

namespace Filing

/-- The second time that an entity is read, the store is going to fail. -/
def watched : World :=
  { world with faults := [⟨.fetch, 1, .fails "down"⟩] }

def clerk : Caller :=
  ⟨"clerk", []⟩

end Filing

/-- The drawer is asked for and shut, so that nothing is asked about its box; then the clerk is let into the
folder. The one reading of the letter is no second one. -/
theorem filing_asks :
    (View.fresh ⟨"letter", "1", "state"⟩).Shows Filing.letter Filing.watched ∧
    Filing.letter.get? "state" = some (.str "draft") ∧ (∀ f ∈ Filing.watched.faults, f.call ≠ .isHeld) ∧
    ∃ v' w', EngineM.outcome ((Filing.process.available ⟨.standard, []⟩ ⟨some Filing.clerk, some "file"⟩ .all).run
        (.fresh ⟨"letter", "1", "state"⟩)) Filing.watched =
      (some ([.ok (Filing.file "cabinet"), .ok (Filing.file "folder"), .ok (Filing.file "cabinet")], v'), w') ∧
      (w'.journal.map Moment.entry = [
        .permission (.named "clerk" fun _ caller => caller.id == "clerk") Filing.letter Filing.clerk true,
        .condition (.named "shut" fun _ => false) Filing.letter false]) := by
  have hshows : (View.fresh ⟨"letter", "1", "state"⟩).Shows Filing.letter Filing.watched := .inr ⟨rfl, rfl, rfl⟩
  have hsound : ∀ f ∈ Filing.watched.faults, f.call ≠ .isHeld := by decide
  refine ⟨hshows, rfl, hsound, ?_⟩
  obtain ⟨v', w', hrun, hleft⟩ :=
    @available_asks ⟨.standard, []⟩ ⟨some Filing.clerk, some "file"⟩ Filing.process (.fresh ⟨"letter", "1", "state"⟩)
      Filing.watched Filing.letter "draft" hshows rfl hsound
  refine ⟨v', w', hrun, ?_⟩
  rcases hleft with ⟨-, rfl⟩ | ⟨-, -, rfl⟩
  · rfl
  · rfl

end Process

end Workflow
