import Workflow.Error
import Workflow.Predicate
import Workflow.Program

/-!
# Registries

The predicates and commands that definitions refer to by name. A name that is registered for no
predicate is read as a guard; a command has to be registered.
-/

namespace Workflow

structure Registry where
  conditions : List (String × (Entity → Bool))
  permissions : List (String × (Entity → Caller → Bool))
  commands : List Command

namespace Registry

def empty : Registry := ⟨[], [], []⟩

/-- Registers a condition in place of an earlier one of the same name. -/
def addCondition (r : Registry) (name : String) (check : Entity → Bool) : Registry :=
  { r with conditions := (name, check) :: r.conditions }

def addPermission (r : Registry) (name : String) (check : Entity → Caller → Bool) : Registry :=
  { r with permissions := (name, check) :: r.permissions }

def addCommand (r : Registry) (command : Command) : Registry :=
  { r with commands := command :: r.commands }

/-! ## Look-ups -/

def condition (r : Registry) (name : String) : Except EngineError Condition :=
  match r.conditions.lookup name with
  | some check => .ok (.named name check)
  | none => (Condition.ofText name).mapError EngineError.invalidGuard

def permission (r : Registry) (name : String) : Except EngineError Permission :=
  match r.permissions.lookup name with
  | some check => .ok (.named name check)
  | none => (Permission.ofText name).mapError EngineError.invalidGuard

def command? (r : Registry) (name : String) : Option Command :=
  r.commands.find? fun c => c.name == name

def command (r : Registry) (name : String) : Except EngineError Command :=
  match r.command? name with
  | some c => .ok c
  | none => .error (.unknownCommand name)

end Registry

end Workflow
