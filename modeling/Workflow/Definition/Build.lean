import Workflow.Definition.Basic
import Workflow.Process
import Workflow.Registry

/-!
# Building processes

Every name of a definition is looked up in a registry. The first flaw in the order of the definition is
reported: a node's name, its conditions and permissions, its transitions, then its nested nodes; within
a transition the names come before the rest.
-/

namespace Workflow

namespace TransitionDefinition

/-- What a success does, unless an action asks for more than it may. -/
def effect (d : TransitionDefinition) : Except DefinitionError Effect :=
  match d.target with
  | some target => .ok (.moves target d.inProgress d.next)
  | none =>
    if d.inProgress.isSome then .error (.actionInProgress d.action)
    else if d.next.isSome then .error (.actionNext d.action)
    else .ok .keeps

/-- The effect of a transition that has a name and a source. -/
def checkedEffect (d : TransitionDefinition) : Except DefinitionError Effect :=
  if Text.isBlankText d.action then .error .blankActionName
  else if d.sources.isEmpty then .error (.noSources d.action)
  else d.effect

def build (r : Registry) (d : TransitionDefinition) : Except EngineError Transition := do
  let conditions ← d.conditions.mapM r.condition
  let permissions ← d.permissions.mapM r.permission
  let sideEffects ← d.sideEffects.mapM r.command
  let callbacks ← d.callbacks.mapM r.command
  let failureCallbacks ← d.failureCallbacks.mapM r.command
  let effect ← d.checkedEffect.mapError EngineError.invalidDefinition
  return {
    action := d.action
    sources := Names.ofList d.sources
    effect := effect
    failed := d.failed
    conditions := conditions
    permissions := permissions
    sideEffects := sideEffects
    callbacks := callbacks
    failureCallbacks := failureCallbacks }

end TransitionDefinition

namespace ProcessDefinition

mutual

def build (r : Registry) : ProcessDefinition → Except EngineError Process
  | ⟨name, conditions, permissions, transitions, nested⟩ => do
    if Text.isBlankText name then .error (.invalidDefinition .blankProcessName)
    else
      let conditions ← conditions.mapM r.condition
      let permissions ← permissions.mapM r.permission
      let transitions ← transitions.mapM (TransitionDefinition.build r)
      let nested ← buildAll r nested
      return ⟨name, conditions, permissions, transitions, nested⟩

def buildAll (r : Registry) : List ProcessDefinition → Except EngineError (List Process)
  | [] => return []
  | d :: ds => do
    let p ← d.build r
    return p :: (← buildAll r ds)

end

end ProcessDefinition

end Workflow
