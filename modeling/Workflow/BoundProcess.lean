import Workflow.Bindings
import Workflow.View

/-!
# Bound processes

A process together with the state field that it drives.
-/

namespace Workflow

/-- A process bound to one state field, with what it remembers of the entity. -/
structure BoundProcess where
  process : Process
  view : View

def BoundProcess.fresh (process : Process) (key : StateKey) : BoundProcess :=
  ⟨process, .fresh key⟩

/-- The process bound under a name, on the field of one entity. -/
def Bindings.openOn (b : Bindings) (kind id name : String) : Except EngineError BoundProcess := do
  let binding ← b.get kind name
  return .fresh binding.process ⟨kind, id, binding.field⟩

end Workflow
