import Workflow.Process
import Workflow.Error

/-!
# Bindings

Which process drives which field of which kind of entity. A binding is known under the name of its
process, or under the name of its field with `_process` behind it; a later binding replaces an earlier
one of the same kind and name.
-/

namespace Workflow

structure Binding where
  field : String
  process : Process

/-- Bindings by kind and name, the latest first. -/
structure Bindings where
  entries : List ((String × String) × Binding)

namespace Bindings

def empty : Bindings := ⟨[]⟩

def bindAs (b : Bindings) (kind name field : String) (process : Process) : Bindings :=
  ⟨((kind, name), ⟨field, process⟩) :: b.entries⟩

def bind (b : Bindings) (kind field : String) (process : Process) : Bindings :=
  b.bindAs kind process.name field process

/-- Binds a process to each field, under the name of the field. -/
def bindFields (b : Bindings) (kind : String) (fields : List (String × Process)) : Bindings :=
  fields.foldl (fun b (field, process) => b.bindAs kind (field ++ "_process") field process) b

def find? (b : Bindings) (kind name : String) : Option Binding :=
  b.entries.lookup (kind, name)

def get (b : Bindings) (kind name : String) : Except EngineError Binding :=
  match b.find? kind name with
  | some binding => .ok binding
  | none => .error (.processNotBound kind name)

def fieldOf? (b : Bindings) (kind name : String) : Option String :=
  (b.find? kind name).map Binding.field

def processesFor (b : Bindings) (kind : String) : List String :=
  Names.ofList ((b.entries.filter fun e => e.1.1 == kind).map fun e => e.1.2)

end Bindings

end Workflow
