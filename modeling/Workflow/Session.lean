import Workflow.BoundProcess
import Workflow.Engine.Pending
import Workflow.Registry
import Workflow.Script

/-!
# Sessions

An engine with its world, bound processes that are kept by name and used again, and bindings. A step has
no outcome when it refers to something unknown or runs deeper than the bound of the session.
-/

namespace Workflow

structure Session where
  engine : Engine
  registry : Registry
  world : World
  handles : List (String × BoundProcess)
  bindings : Bindings
  /-- How deep transitions may start one another, and how many jobs the pool may run at once. -/
  depth : Nat

abbrev SessionM := StateT Session Option

namespace SessionM

def unknown {α : Type} : SessionM α := fun _ => none

def onEngine {α : Type} (m : EngineM α) : SessionM α := fun s =>
  let (outcome, world) := m.outcome s.world
  outcome.map fun a => (a, { s with world := world })

def start : SessionM Start :=
  return Transition.execute (← get).engine (← get).depth

def process (name : String) : SessionM Process := do
  match (← get).engine.processes.lookup name with
  | some p => return p
  | none => unknown

def handle (name : String) : SessionM BoundProcess := do
  match (← get).handles.lookup name with
  | some b => return b
  | none => unknown

def keepHandle (name : String) (b : BoundProcess) : SessionM Unit :=
  modify fun s => { s with handles := (name, b) :: s.handles.filter fun h => h.1 != name }

/-- Runs a computation on the view of a handle, which is kept with what it remembers then. -/
def onHandle {α : Type} (name : String) (m : Process → FieldM α) : SessionM α := do
  let b ← handle name
  let (a, view) ← onEngine ((m b.process).run b.view)
  keepHandle name { b with view := view }
  return a

/-! ## Stores and executor -/

def insert (e : Entity) : SessionM Unit :=
  onEngine (modify fun w => { w with entities := w.entities.insert e })

def remove (kind id : String) : SessionM Bool :=
  onEngine do
    let found := (← get).entities.contains kind id
    modify fun w => { w with entities := w.entities.remove kind id }
    return found

def write (key : StateKey) (value : Json) : SessionM (Except EngineError Unit) :=
  onEngine do
    match (← get).entities.setField key value with
    | .ok entities =>
      modify fun w => { w with entities := entities }
      return .ok ()
    | .error e => return .error e

def addFault (f : Fault) : SessionM Unit :=
  onEngine (modify fun w => { w with faults := w.faults ++ [f] })

/-- Gives up the faults that have not hit yet, and tells their number. -/
def clearFaults : SessionM Nat :=
  onEngine do
    let n := (← get).faults.length
    modify fun w => { w with faults := [] }
    return n

def setExecutor (executor : Executor) : SessionM Unit :=
  onEngine (modify fun w => { w with executor := executor })

/-! ## Jobs -/

def runNext : SessionM (Option (Job × Except EngineError Unit)) := do
  match ← onEngine EngineM.takeQueued with
  | none => return none
  | some job => return some (job, ← onEngine (job.run (← get).engine (← start)))

def detachNext : SessionM (Option Job) := do
  match ← onEngine EngineM.takeQueued with
  | none => return none
  | some job =>
    onEngine (job.runDetached (← get).engine (← start))
    return some job

def dropNext : SessionM (Option Job) :=
  onEngine EngineM.takeQueued

def settle : SessionM Nat := do
  onEngine (EngineM.settlePool (← get).engine (← start) (← get).depth)

def job (key : StateKey) (action : String) (context : Context) (commands : List String)
    (onSuccess onFailure : Option String) : SessionM Job := do
  match commands.mapM (← get).registry.command? with
  | some steps => return ⟨key, action, context, steps, .reply onSuccess onFailure⟩
  | none => unknown

/-! ## Bound processes -/

def openHandle (name process : String) (key : StateKey) : SessionM Unit := do
  keepHandle name (.fresh (← SessionM.process process) key)

def bind (kind field process : String) : SessionM Unit := do
  let p ← SessionM.process process
  modify fun s => { s with bindings := s.bindings.bind kind field p }

def bindFields (kind : String) (fields : List (String × String)) : SessionM Unit := do
  let fields ← fields.mapM fun (field, process) => return (field, ← SessionM.process process)
  modify fun s => { s with bindings := s.bindings.bindFields kind fields }

def openBound (name kind id bound : String) : SessionM (Except EngineError BoundProcess) := do
  let opened := (← get).bindings.openOn kind id bound
  if let .ok b := opened then keepHandle name b
  return opened

/-- The transition at a position of the tree of a handle. -/
def transition (name : String) (path : List Nat) (index : Nat) : SessionM Transition := do
  match ((← handle name).process.descendant? path).bind fun p => p.transitions[index]? with
  | some t => return t
  | none => unknown

def invoke (name action : String) (user : Option Caller) (context : Context) :
    SessionM (Except EngineError Unit) := do
  let s ← get
  onHandle name fun p => (p.invoke s.engine s.depth action user context).run

/-! ## Reports -/

/-- What is told of a run: calls of commands and of registered predicates, and notes. -/
def isTold : Entry → Bool
  | .condition c _ _ => c.isRegistered
  | .permission p _ _ _ => p.isRegistered
  | .command .. | .note .. => true
  | _ => false

def takeEntries : SessionM (List Entry) :=
  onEngine do
    let entries := ((← get).journal.reverse.map Moment.entry).filter isTold
    modify fun w => { w with journal := [] }
    return entries

def takeEvents (subscriber : String) : SessionM (List Delivery) :=
  onEngine do
    let (deliveries, bus) := (← get).bus.drain subscriber
    modify fun w => { w with bus := bus }
    return deliveries

end SessionM

end Workflow
