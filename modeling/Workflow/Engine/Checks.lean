import Workflow.View

/-!
# Checking predicates

Predicates are asked in order up to the first that fails, all on one reading of the entity; each
question is recorded. Without predicates, and without a caller for permissions, nothing is read.
-/

namespace Workflow

namespace EngineM

/-- Asks conditions in order up to the first that fails. -/
def askConditions (e : Entity) : List Condition → EngineM Bool
  | [] => return true
  | c :: cs => do
    let result := c.check e
    record (.condition c e result)
    if result then askConditions e cs else return false

/-- Asks permissions in order up to the first that fails. -/
def askPermissions (e : Entity) (caller : Caller) : List Permission → EngineM Bool
  | [] => return true
  | p :: ps => do
    let result := p.check e caller
    record (.permission p e caller result)
    if result then askPermissions e caller ps else return false

end EngineM

namespace ViewM

/-- A computation that touches no view. -/
def ofEngine {α : Type} (m : EngineM α) : ViewM α :=
  ofCall (liftM m)

def conditionsHold (conditions : List Condition) : ViewM Bool := do
  if conditions.isEmpty then return true
  let e ← entity
  ofEngine (EngineM.askConditions e conditions)

/-- A call without a caller is trusted. -/
def permissionsHold (user : Option Caller) (permissions : List Permission) : ViewM Bool := do
  match user with
  | none => return true
  | some caller =>
    if permissions.isEmpty then return true
    let e ← entity
    ofEngine (EngineM.askPermissions e caller permissions)

end ViewM

namespace Transition

/-- Not locked, and permissions and conditions hold. -/
def isValid (engine : Engine) (user : Option Caller) (t : Transition) : ViewM Bool := do
  if ← ViewM.isLocked engine then return false
  if ← ViewM.permissionsHold user t.permissions then ViewM.conditionsHold t.conditions
  else return false

/-- Valid, and the remembered state is one of the sources. -/
def isAvailable (engine : Engine) (user : Option Caller) (t : Transition) : ViewM Bool := do
  if t.sources.contains (← ViewM.memoizedState) then isValid engine user t else return false

end Transition

/-- Whether permissions and conditions of the node itself hold. -/
def Process.isValid (user : Option Caller) (p : Process) : ViewM Bool := do
  if ← ViewM.permissionsHold user p.permissions then ViewM.conditionsHold p.conditions
  else return false

end Workflow
