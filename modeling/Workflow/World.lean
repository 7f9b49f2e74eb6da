import Workflow.Event.Bus
import Workflow.Journal
import Workflow.Process
import Workflow.Store.Entities
import Workflow.Store.Fault
import Workflow.Store.Locks

/-!
# The world of an engine

Everything a run can change: the stores and the faults planned for them, the jobs that wait, the events
and the journal. A computation of the engine changes the world and gives a value; it is cut off, and
gives none, when transitions start one another deeper than its bound.
-/

namespace Workflow

/-- What is done with the outcome of a job. -/
inductive Continuation
  /-- Completes or fails the transition of that start; what comes next is looked for in the process. -/
  | finish (number : Nat) (transition : Transition) (root : Option Process)
  /-- Notes the outcome and gives the store error of that name, if there is one. -/
  | reply (onSuccess onFailure : Option String)

/-- Side effects that were handed to the executor. -/
structure Job where
  key : StateKey
  action : String
  context : Context
  steps : List Command
  continuation : Continuation

/-- The transition that the job belongs to, if it is one. -/
def Job.flight? (job : Job) : Option Flight :=
  match job.continuation with
  | .finish number _ _ => some ⟨number, job.key⟩
  | .reply .. => none

/-- What becomes of a job. -/
inductive Executor
  /-- Runs it before the hand-over returns. -/
  | inline
  /-- Runs it before the hand-over returns, which does not tell how it ended. -/
  | detaching
  | queue
  | pool
  | rejecting (reason : String)
  /-- Treats one job as `first` does, and those behind it as `rest` does. -/
  | varying (first rest : Executor)
deriving DecidableEq, Repr

/-- What the stores hold, which jobs wait and which transitions are in flight, at one moment. -/
structure Scene where
  entities : EntityStore
  locks : LockStore
  /-- Jobs to be run one by one on demand, the earliest first. -/
  queue : List Job
  /-- Jobs of the pool, the earliest first. -/
  pool : List Job
  flights : List Flight

/-- Something that happened, and the scene right after it. -/
structure Moment where
  entry : Entry
  scene : Scene

structure World extends Scene where
  faults : List Fault
  executor : Executor
  bus : EventBus
  /-- How many transitions were started. -/
  starts : Nat
  /-- Everything that happened, the latest first. -/
  journal : List Moment

/-- A world with the given bus and no entities, locks, faults and jobs. -/
def World.start (executor : Executor) (bus : EventBus) : World where
  entities := .empty
  locks := .empty
  queue := []
  pool := []
  flights := []
  faults := []
  executor := executor
  bus := bus
  starts := 0
  journal := []

/-- All jobs that wait. -/
def Scene.pending (s : Scene) : List Job :=
  s.queue ++ s.pool

namespace World

def record (w : World) (entry : Entry) : World :=
  { w with journal := ⟨entry, w.toScene⟩ :: w.journal }

def emit (w : World) (e : Event) : World :=
  { w with bus := w.bus.emit e }.record (.emitted e)

/-- The write of a field left these entities. -/
def write (w : World) (entities : EntityStore) (key : StateKey) (value : Json) : World :=
  { w with entities := entities }.record (.wrote key value)

def remove (w : World) (kind id : String) : World :=
  { w with entities := w.entities.remove kind id }.record (.removed kind id)

def lock (w : World) (lockKey : String) (ttl : Nat) : World :=
  { w with locks := (w.locks.acquire lockKey ttl).2 }.record (.acquired lockKey)

def unlock (w : World) (lockKey : String) : World :=
  { w with locks := w.locks.release lockKey }.record (.released lockKey)

/-- A transition on the field takes the next number: it is in flight. -/
def takeOff (w : World) (key : StateKey) : World :=
  { w with starts := w.starts + 1, flights := ⟨w.starts, key⟩ :: w.flights }

/-- The transition has come to its unlock. -/
def land (w : World) (flight : Flight) : World :=
  { w with flights := w.flights.filter (· ≠ flight) }.record (.landed flight)

end World

abbrev EngineM := OptionT (StateM World)

namespace EngineM

/-- The value, if the computation is not cut off, and the world in which it ends or is cut off. -/
def outcome {α : Type} (m : EngineM α) (w : World) : Option α × World :=
  m.run.run w

def tooDeep {α : Type} : EngineM α := OptionT.fail

def record (entry : Entry) : EngineM Unit :=
  modify fun w => w.record entry

def emit (key : StateKey) (action : String) (kind : EventKind) : EngineM Unit :=
  modify fun w => w.emit ⟨key, action, kind⟩

/-- The number of a transition that starts on the field now. -/
def takeOff (key : StateKey) : EngineM Nat := do
  let number := (← get).starts
  modify fun w => w.takeOff key
  return number

def land (flight : Flight) : EngineM Unit :=
  modify fun w => w.land flight

end EngineM

/-! ## Store calls -/

/-- A call that may fail. -/
abbrev CallM := ExceptT EngineError EngineM

namespace CallM

/-- What befalls the next call of a kind. -/
def strike (call : StoreCall) : EngineM (Option FaultEffect) := do
  let (effect, faults) := Fault.strike call (← get).faults
  modify fun w => { w with faults := faults }
  return effect

/-- The call ends with the error, which is recorded. -/
def fail {α : Type} (call : StoreCall) (e : EngineError) : CallM α := do
  modify fun w => w.record (.failed call e)
  throw e

/-- A call of the entity store, unless a fault hits it. -/
def ofEntities {α : Type} (call : StoreCall) (run : EntityStore → Except EngineError α) :
    CallM α := do
  match ← strike call with
  | some (.fails m) => fail call (.store m)
  | _ =>
    match run (← get).entities with
    | .ok a => return a
    | .error e => fail call e

def fetch (kind id : String) : CallM Entity :=
  ofEntities .fetch fun s => s.fetch kind id

def getField (key : StateKey) : CallM Json :=
  ofEntities .getField fun s => s.getField key

def setField (key : StateKey) (value : Json) : CallM Unit := do
  let entities ← ofEntities .setField fun s => s.setField key value
  modify fun w => w.write entities key value

def acquire (lockKey : String) (ttl : Nat) : CallM Bool := do
  match ← strike .acquire with
  | some (.fails m) => fail .acquire (.lockStore m)
  | some .loses => return false
  | none =>
    let taken := ((← get).locks.acquire lockKey ttl).1
    if taken then modify fun w => w.lock lockKey ttl
    return taken

def release (lockKey : String) : CallM Unit := do
  match ← strike .release with
  | some (.fails m) => fail .release (.lockStore m)
  | _ =>
    modify fun w => w.unlock lockKey

def isHeld (lockKey : String) : CallM Bool := do
  match ← strike .isHeld with
  | some (.fails m) => fail .isHeld (.lockStore m)
  | _ => return (← get).locks.isHeld lockKey

end CallM

end Workflow
