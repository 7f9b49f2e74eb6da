import Workflow.Guard.Parser

/-!
# Conditions and permissions

A condition is a predicate on an entity, a permission one on an entity and a caller. Each is either
registered under a name or given by the text of a guard, which is then its name.
-/

namespace Workflow

inductive Condition
  | named (name : String) (check : Entity → Bool)
  | guarded (text : String) (guard : Guard)

inductive Permission
  | named (name : String) (check : Entity → Caller → Bool)
  | guarded (text : String) (guard : Guard)

namespace Condition

def name : Condition → String
  | named name _ => name
  | guarded text _ => text

def check : Condition → Entity → Bool
  | named _ check, e => check e
  | guarded _ g, e => g.eval (.of e none)

def isRegistered : Condition → Bool
  | named .. => true
  | guarded .. => false

def ofText (text : String) : Except GuardError Condition := do
  let g ← Guard.parse text
  if g.referencesUser then .error (.callerInCondition text) else return guarded text g

end Condition

namespace Permission

def name : Permission → String
  | named name _ => name
  | guarded text _ => text

def check : Permission → Entity → Caller → Bool
  | named _ check, e, c => check e c
  | guarded _ g, e, c => g.eval (.of e (some c))

def isRegistered : Permission → Bool
  | named .. => true
  | guarded .. => false

def ofText (text : String) : Except GuardError Permission :=
  return guarded text (← Guard.parse text)

end Permission

end Workflow
