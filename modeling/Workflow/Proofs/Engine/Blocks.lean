import Workflow.Error
import Workflow.Event.Basic

/-!
# Blocks of events

What a transition tells of itself: how it begins under its lock, and how it ends once its side effects are
done or were refused.
-/

namespace Workflow

/-- A write of the state, with the state that was known before. -/
structure Change where
  source : Option String
  target : String
deriving DecidableEq, Repr

def Change.kind (phase : Phase) (c : Change) : EventKind :=
  .stateChanged c.source c.target phase

structure Opening where
  entered : Option Change
deriving DecidableEq, Repr

inductive Ending
  | completed (written : Option Change) (callback : Option CommandFailure) (skipped : Option (String × Nat))
  | failed (written : Option Change) (error : String) (callback : Option CommandFailure)
deriving DecidableEq, Repr

/-- All that one transition tells. -/
structure Block where
  action : String
  opening : Opening
  ending : Ending
deriving DecidableEq, Repr

def CommandFailure.kind (onFailurePath : Bool) (f : CommandFailure) : EventKind :=
  .callbackFailed f.command f.error onFailurePath

def Opening.kinds (o : Opening) : List EventKind :=
  .locked :: (o.entered.map (Change.kind .inProgress)).toList

def Ending.kinds : Ending → List EventKind
  | completed written callback skipped =>
    (written.map (Change.kind .completed)).toList ++ [.unlocked, .completed] ++
      (callback.map (CommandFailure.kind false)).toList ++
      (skipped.map fun s => .chainSkipped s.1 s.2).toList
  | failed written error callback =>
    (written.map (Change.kind .failed)).toList ++ [.unlocked, .failed error] ++
      (callback.map (CommandFailure.kind true)).toList

namespace Block

def kinds (b : Block) : List EventKind :=
  b.opening.kinds ++ b.ending.kinds

def events (k : StateKey) (b : Block) : List Event :=
  b.kinds.map fun kind => ⟨k, b.action, kind⟩

end Block

end Workflow
