import Workflow.Engine.Commands

/-!
# Running transitions

A transition locks its field, writes the in-progress state and hands its side effects to the executor.
Their outcome completes or fails it: the field is written, the lock is released, the callbacks run, and
a completed transition may go on with another one of the same process. Whatever starts a transition from
inside a run goes through the parameter `start`; `execute` closes the circle up to a bound on how deep
transitions start one another.
-/

namespace Workflow

namespace Transition

variable (engine : Engine) (start : Start) (t : Transition)

/-- Reports something about the field of the view. -/
def report (kind : EventKind) : ViewM Unit := do
  ViewM.ofEngine (EngineM.emit (← ViewM.key) t.action kind)

/-- Writes the state and reports the change from the state remembered before. -/
def writeState (value : String) (phase : Phase) : ViewM Unit := do
  let source ← try some <$> ViewM.memoizedState catch _ => pure none
  ViewM.setState value
  t.report (.stateChanged source value phase)

/-- Runs callbacks; the failure of one is reported and goes no further. -/
def runCallbacks (callbacks : List Command) (onFailurePath : Bool) (context : Context) :
    ViewM Context := do
  let (failure, context) ←
    liftM (n := ViewM) ((Command.runAll engine start callbacks).run context : FieldM _)
  if let some f := failure then
    t.report (.callbackFailed f.command f.error onFailurePath)
  return context

/--
Goes on with the one available transition of the action `next`, on a view of its own. The transition
that chains is over: an error is reported and not passed on.
-/
def chain (next : String) (context : Context) (root : Option Process) : ViewM Unit := do
  match root with
  | none => t.report (.chainSkipped next 0)
  | some root =>
    let key ← ViewM.key
    let outcome ← ViewM.ofEngine <| ViewM.onFresh key do
      match ← root.candidates engine ⟨context.user, some next⟩ with
      | [u] => start u context.withoutFailure (some root)
      | us => t.report (.chainSkipped next us.length)
    if let .error e := outcome then
      ViewM.ofEngine (EngineM.emit key next (.continuationFailed e.message))

/-- Unlocks the field. The number is that of the start, when it was this transition that locked it. -/
def release (number : Option Nat) : ViewM Unit := do
  if let some n := number then
    ViewM.ofEngine (EngineM.land ⟨n, ← ViewM.key⟩)
  ViewM.unlock engine
  t.report .unlocked

/-- Writes the target, unlocks the field and runs the callbacks. -/
def succeed (context : Context) (number : Option Nat) : ViewM Context := do
  if let some target := t.target then
    t.writeState target .completed
  t.release engine number
  t.report .completed
  t.runCallbacks engine start t.callbacks false context

/-- What follows side effects that succeeded. -/
def complete (context : Context) (root : Option Process) (number : Option Nat := none) :
    ViewM Unit := do
  let context ← t.succeed engine start context number
  if let some next := t.next then
    t.chain engine start next context root

/-- What follows a side effect that failed. -/
def fail (failure : CommandFailure) (context : Context) (number : Option Nat := none) :
    ViewM Unit := do
  if let some failed := t.failed then
    t.writeState failed .failed
  t.release engine number
  t.report (.failed failure.message)
  let _ ← t.runCallbacks engine start t.failureCallbacks true (context.withFailure failure)

/-- What follows side effects that the executor did not take. -/
def abort (previous : Option String) (reason : String) (number : Option Nat) : ViewM Unit := do
  if let some value := t.failed <|> previous then
    t.writeState value .failed
  t.release engine number
  t.report (.failed ("side-effect job rejected: " ++ reason))

end Transition

/-! ## Jobs -/

/-- Why a job was not taken, or how it ended when it was run at once. -/
inductive DispatchError
  | rejected (reason : String)
  | continuation (error : EngineError)
deriving DecidableEq, Repr

def DispatchError.message : DispatchError → String
  | rejected reason => "side-effect job rejected: " ++ reason
  | continuation e => e.message

namespace Job

variable (engine : Engine) (start : Start)

/-- The store error of that text, if there is one. -/
def storeError (message : Option String) : Except EngineError Unit :=
  match message with
  | some m => .error (.store m)
  | none => .ok ()

/-- Runs the steps and then the continuation, each on a view of its own. -/
def run (job : Job) : EngineM (Except EngineError Unit) := do
  let ((failure, context), _) ←
    ((Command.runAll engine start job.steps).run job.context).run (View.fresh job.key)
  match job.continuation, failure with
  | .finish n t root, none => ViewM.onFresh job.key (t.complete engine start context root (some n))
  | .finish n t _, some f => ViewM.onFresh job.key (t.fail engine start f context (some n))
  | .reply onSuccess _, none =>
    EngineM.record (.note (.succeeded context))
    return storeError onSuccess
  | .reply _ onFailure, some f =>
    EngineM.record (.note (.failed context f))
    return storeError onFailure

/-- Runs the job; an error is reported, for there is nobody to return it to. -/
def runDetached (job : Job) : EngineM Unit := do
  if let .error e := ← job.run engine start then
    EngineM.emit job.key job.action (.continuationFailed e.message)

/-- Treats the job as the executor does. -/
def handTo (job : Job) : Executor → EngineM (Except DispatchError Unit)
  | .inline => do
    match ← job.run engine start with
    | .ok () => return .ok ()
    | .error e => return .error (.continuation e)
  | .detaching => do
    job.runDetached engine start
    return .ok ()
  | .queue => do
    modify fun w => { w with queue := w.queue ++ [job] }
    return .ok ()
  | .pool => do
    modify fun w => { w with pool := w.pool ++ [job] }
    return .ok ()
  | .rejecting reason => return .error (.rejected reason)
  | .varying first rest => do
    modify fun w => { w with executor := rest }
    handTo job first

/-- Hands the job to the executor. -/
def dispatch (job : Job) : EngineM (Except DispatchError Unit) := do
  job.handTo engine start (← get).executor

end Job

/-! ## Starting -/

namespace Transition

/-- The state to go back to, once the in-progress state is written. -/
def enter (t : Transition) : ViewM (Option String) := do
  match t.inProgress with
  | none => return none
  | some value =>
    let previous ← ViewM.memoizedState
    t.writeState value .inProgress
    return some previous

/-- Notes that the transition has the lock, and what is known at this moment; gives its number. -/
def recordStart (t : Transition) (context : Context) : ViewM Nat := do
  let v ← getThe View
  let stored := (← getThe World).entities.getField v.key
  let number ← ViewM.ofEngine (EngineM.takeOff v.key)
  ViewM.ofEngine (EngineM.record (.started ⟨number, t, v.key, stored.toOption, v.memo, context⟩))
  return number

variable (engine : Engine)

/-- Hands the side effects to the executor. -/
def handOver (start : Start) (t : Transition) (context : Context) (root : Option Process)
    (number : Nat) (previous : Option String) : ViewM Unit := do
  let job : Job := ⟨← ViewM.key, t.action, context, t.sideEffects, .finish number t root⟩
  match ← ViewM.ofEngine (job.dispatch engine start) with
  | .ok () => return
  | .error (.continuation e) => throw e
  | .error (.rejected reason) =>
    t.abort engine previous reason (some number)
    throw (.executor reason)

/-- Locks the field and hands the side effects to the executor. -/
def executeWith (start : Start) : Start := fun t context root => do
  let free ← if ← ViewM.isLocked engine then pure false else ViewM.lock engine
  if !free then
    t.report .lockRejected
    throw (.notAllowed t.action .locked)
  let number ← t.recordStart context
  t.report .locked
  t.handOver engine start context root number (← t.enter)

/-- Starts a transition, from inside which at most `depth` more may start one another. -/
def execute : Nat → Start
  | 0 => fun _ _ _ => ViewM.ofEngine EngineM.tooDeep
  | depth + 1 => executeWith engine (execute depth)

end Transition

/-- Starts the one available transition of the given action for a caller. -/
def Process.invoke (engine : Engine) (depth : Nat) (action : String) (user : Option Caller)
    (context : Context) (p : Process) : ViewM Unit :=
  p.invokeWith engine (Transition.execute engine depth) action (context.withUser user)

end Workflow
