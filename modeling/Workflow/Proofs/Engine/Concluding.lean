import Workflow.Proofs.Engine.Blocks
import Workflow.Proofs.Engine.Performing

/-!
# Behind the side effects

Once its side effects are over, a transition settles its state and gives the lock back, and performs callbacks behind
that. Only then a completed one may go on with another.
-/

namespace Workflow

/-! ## Settling -/

/-- The commands that follow the side effects. -/
def Transition.followUps (t : Transition) : Option CommandFailure → List Command
  | none => t.callbacks
  | some _ => t.failureCallbacks

/-- The state that is written once the side effects are over. -/
def Transition.settles (t : Transition) : Option CommandFailure → Option String
  | none => t.target
  | some _ => t.failed

/-- The context of the commands that follow the side effects. -/
def Context.after (c : Context) (failure : Option CommandFailure) : Context :=
  failure.elim c c.withFailure

/-- Since an earlier world the journal tells that this state was written. -/
def World.Wrote (earlier : World) (k : StateKey) (state : String) (w : World) : Prop :=
  ∃ new, w.journal = new ++ earlier.journal ∧ ∃ m ∈ new, m.entry = .wrote k (.str state)

theorem World.Wrote.later {w₀ w w' : World} {k : StateKey} {state : String} (h : w₀.Wrote k state w)
    (hjournal : w.journal <:+ w'.journal) : w₀.Wrote k state w' := by
  obtain ⟨new, hnew, m, hm, hwrote⟩ := h
  obtain ⟨more, hmore⟩ := hjournal
  exact ⟨more ++ new, by rw [← hmore, hnew, List.append_assoc], m, List.mem_append_right _ hm, hwrote⟩

namespace World

variable {k : StateKey} {w : World} (action : String) (source : Option String) (value : String) (phase : Phase)

theorem Sound.change (h : w.Sound k) : (w.change k action source value phase).Sound k :=
  ⟨h.faults, (EntityStore.isSome_find?_assign ..).trans h.entity⟩

end World

/-- The state is settled and the lock is given back; no command was called and nothing started. -/
structure World.Concluded (engine : Engine) (k : StateKey) (value : Option String) (w w' : World) : Prop where
  sound : w'.Sound k
  free : w'.locks.isHeld (k.lockKey engine.config.lockPrefix) = false
  field : w'.entities.getField k = value.elim (w.entities.getField k) fun s => .ok (.str s)
  wrote : ∀ state, value = some state → w.Wrote k state w'
  calls : w'.calls = w.calls
  unchained : w.Unchained w'

namespace Transition

variable (engine : Engine) (start : Start) (t : Transition)

/-- The end of a transition, before any callback. -/
def conclude (value : Option String) (phase : Phase) (kind : EventKind) (number : Option Nat) : ViewM Unit := do
  if let some value := value then
    t.writeState value phase
  t.release engine number
  t.report kind

theorem succeed_eq (context : Context) (number : Option Nat) : t.succeed engine start context number = (do
    t.conclude engine t.target .completed .completed number
    t.runCallbacks engine start t.callbacks false context) := by
  unfold succeed conclude
  cases t.target <;> simp only [bind_assoc]

theorem fail_eq (failure : CommandFailure) (context : Context) (number : Option Nat) :
    t.fail engine start failure context number = (do
      t.conclude engine t.failed .failed (.failed failure.message) number
      let _ ← t.runCallbacks engine start t.failureCallbacks true (context.withFailure failure)) := by
  unfold fail conclude
  cases t.failed <;> simp only [bind_assoc]

variable {t} {v : View} {w : World}

end Transition

/-- The world after callbacks of which one has failed, or none. -/
def World.blame (w : World) (k : StateKey) (action : String) (onFailurePath : Bool) (fault : Option CommandFailure) :
    World :=
  fault.elim w fun f => w.emit ⟨k, action, f.kind onFailurePath⟩

namespace World

variable {k : StateKey} {w : World} (action : String) (onFailurePath : Bool) (fault : Option CommandFailure)

theorem Sound.blame (h : w.Sound k) : (w.blame k action onFailurePath fault).Sound k := by
  cases fault with
  | none => exact h
  | some f => exact ⟨h.faults, h.entity⟩

theorem calls_blame : (w.blame k action onFailurePath fault).calls = w.calls := by
  cases fault <;> rfl

end World

namespace ViewM

variable {α : Type}

theorem outcome_ofField {x : FieldM α} {a : α} {v v' : View} {w w' : World}
    (h : EngineM.outcome (x.run v) w = (some (a, v'), w')) :
    (liftM x : ViewM α).outcome v w = (some (.ok a, v'), w') := by
  have hlifted : (liftM x : ViewM α).run.run v = x.run v >>= fun p => pure (.ok p.1, p.2) := rfl
  rw [outcome, hlifted, EngineM.outcome_bind_some h]
  rfl

/-- What a computation gives to those who keep no view. -/
def answer (x : ViewM α) (v : View) (w : World) : Option (Except EngineError α) × World :=
  ((x.outcome v w).1.map Prod.fst, (x.outcome v w).2)

end ViewM

namespace Transition

variable (engine : Engine) (start : Start) (t : Transition)

theorem runCallbacks_outcome {callbacks : List Command} {s s' : Stage} {fault : Option CommandFailure}
    (h : (Command.runAll engine start callbacks).outcome s.context s.view s.world =
      (some ((fault, s'.context), s'.view), s'.world)) (onFailurePath : Bool) :
    (t.runCallbacks engine start callbacks onFailurePath s.context).outcome s.view s.world =
      (some (.ok s'.context, s'.view), s'.world.blame s'.view.key t.action onFailurePath fault) := by
  refine (ViewM.outcome_bind_ok (ViewM.outcome_ofField h) _).trans ?_
  cases fault with
  | none => rfl
  | some f => exact (ViewM.outcome_bind_ok (t.report_outcome ..) _).trans rfl

end Transition

/-! ## Jobs -/

/-- How a transition on the field `k` ends when its side effects have left this world: callbacks are performed once the
state is settled and the lock given back. -/
structure Aftermath (engine : Engine) (start : Start) (t : Transition) (k : StateKey)
    (failure : Option CommandFailure) (context : Context) (w : World) where
  begun : Stage
  turns : List Turn
  fault : Option CommandFailure
  left : Stage
  on : begun.On k
  context : begun.context = context.after failure
  concluded : w.Concluded engine k (t.settles failure) begun.world
  performs : Performs engine start (t.followUps failure) begun turns fault left

namespace Aftermath

variable {engine : Engine} {start : Start} {t : Transition} {k : StateKey} {failure : Option CommandFailure}
  {c : Context} {w : World} (a : Aftermath engine start t k failure c w) {locking : Prop}

/-- The world in which the transition goes on or is over. -/
def world : World :=
  a.left.world.blame k t.action failure.isSome a.fault

variable (hcs : ∀ command ∈ t.followUps failure, command.body.All (Op.Works locking))

include hcs

theorem world_calls : a.world.calls = w.calls ++ a.turns.map Turn.moment := by
  rw [world, World.calls_blame, a.performs.calls hcs a.on, a.concluded.calls]

end Aftermath

namespace Transition

variable (engine : Engine) (start : Start) (t : Transition) {k : StateKey} {locking : Prop}
  {failure : Option CommandFailure} (c : Context) {w : World}

end Transition

end Workflow
