import Workflow.Config.Basic
import Workflow.LockKey
import Workflow.World

/-!
# Views of a state field

A view is bound to one state field and remembers the entity it read last. It reads the entity once and
again after each of its own writes; what others write in between it does not see.
-/

namespace Workflow

/-- What does not change while an engine runs: its configuration and the processes known by name. -/
structure Engine where
  config : Config
  processes : List (String × Process)

structure View where
  key : StateKey
  memo : Option Entity

/-- A view that has read nothing yet. -/
def View.fresh (key : StateKey) : View := ⟨key, none⟩

/-- Computations with a view of their own. -/
abbrev FieldM := StateT View EngineM

/-- Computations with a view that may fail. What they did before the failure stays done. -/
abbrev ViewM := ExceptT EngineError FieldM

namespace ViewM

def ofCall {α : Type} (call : CallM α) : ViewM α :=
  ExceptT.mk (m := FieldM) (liftM (n := FieldM) (call : EngineM (Except EngineError α)))

def key : ViewM StateKey :=
  return (← getThe View).key

/-- The text a state field holds. -/
def stateOf (field : String) : Json → Except EngineError String
  | .str s => .ok s
  | _ => .error (.invalidStateValue field)

/-- Reads the entity anew and remembers it. -/
def refresh : ViewM Entity := do
  let k ← key
  let e ← ofCall (CallM.fetch k.kind k.id)
  modifyThe View fun v => { v with memo := some e }
  return e

/-- The entity as it was read last. -/
def entity : ViewM Entity := do
  match (← getThe View).memo with
  | some e => return e
  | none => refresh

/-- The state in the store. -/
def storedState : ViewM String := do
  let k ← key
  let value ← ofCall (CallM.getField k)
  ExceptT.mk (pure (stateOf k.field value))

/-- The state of the entity as it was read last. -/
def memoizedState : ViewM String := do
  let k ← key
  match (← entity).get? k.field with
  | some value => ExceptT.mk (pure (stateOf k.field value))
  | none => throw (.fieldNotFound k)

/-- Writes a field of the entity and reads it anew. -/
def setField (field : String) (value : Json) : ViewM Unit := do
  let k ← key
  ofCall (CallM.setField { k with field := field } value)
  let _ ← refresh

def setState (value : String) : ViewM Unit := do
  setField (← key).field (.str value)

/-! ## The lock of the field -/

variable (engine : Engine)

def lockKey : ViewM String :=
  return (← key).lockKey engine.config.lockPrefix

def lock : ViewM Bool := do
  ofCall (CallM.acquire (← lockKey engine) engine.config.lockTtl)

def unlock : ViewM Unit := do
  ofCall (CallM.release (← lockKey engine))

def isLocked : ViewM Bool := do
  ofCall (CallM.isHeld (← lockKey engine))

end ViewM

end Workflow
