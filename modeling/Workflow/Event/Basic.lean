import Workflow.Entity

/-!
# Events

What the engine reports about a state field.
-/

namespace Workflow

/-- The point of a run at which the field is written. -/
inductive Phase
  | inProgress
  | completed
  | failed
deriving DecidableEq, Repr

inductive EventKind
  | locked
  | lockRejected
  | stateChanged (source : Option String) (target : String) (phase : Phase)
  | completed
  | failed (error : String)
  | unlocked
  | callbackFailed (command error : String) (onFailurePath : Bool)
  | chainSkipped (next : String) (count : Nat)
  | continuationFailed (error : String)
deriving DecidableEq, Repr

structure Event where
  key : StateKey
  action : String
  kind : EventKind
deriving DecidableEq, Repr

def StateKey.toJson (k : StateKey) : Json :=
  .obj [("kind", .str k.kind), ("id", .str k.id), ("field", .str k.field)]

def Phase.name : Phase → String
  | inProgress => "in_progress"
  | completed => "completed"
  | failed => "failed"

namespace EventKind

def typeName : EventKind → String
  | locked => "locked"
  | lockRejected => "lock_rejected"
  | stateChanged .. => "state_changed"
  | completed => "completed"
  | failed .. => "failed"
  | unlocked => "unlocked"
  | callbackFailed .. => "callback_failed"
  | chainSkipped .. => "chain_skipped"
  | continuationFailed .. => "continuation_failed"

def details : EventKind → List (String × Json)
  | stateChanged source target phase =>
    [("from", .ofString? source), ("to", .str target), ("phase", .str phase.name)]
  | failed error | continuationFailed error => [("error", .str error)]
  | callbackFailed command error onFailurePath =>
    [("command", .str command), ("error", .str error), ("on_failure_path", .bool onFailurePath)]
  | chainSkipped next n => [("next", .str next), ("matches", .int n)]
  | locked | lockRejected | completed | unlocked => []

end EventKind

/-- An event as it is written, its fields in their order. -/
def Event.toJson (e : Event) : Json :=
  .obj ([("key", e.key.toJson), ("action", .str e.action), ("type", .str e.kind.typeName)] ++
    e.kind.details)

end Workflow
