import Workflow.Names
import Workflow.Predicate
import Workflow.Program

/-!
# Transitions and actions

A transition moves a state field from one of its sources to a target; an action runs in the same way
but leaves the field alone when it succeeds.
-/

namespace Workflow

/-- What a success does to the field. -/
inductive Effect
  /-- Writes the target, perhaps another value in between, and perhaps goes on with an action. -/
  | moves (target : String) (inProgress next : Option String)
  | keeps
deriving DecidableEq, Repr

structure Transition where
  action : String
  /-- In ascending order, and at least one. -/
  sources : List String
  effect : Effect
  /-- The state that a failure writes. -/
  failed : Option String
  conditions : List Condition
  permissions : List Permission
  sideEffects : List Command
  callbacks : List Command
  failureCallbacks : List Command

namespace Transition

def target (t : Transition) : Option String :=
  match t.effect with
  | .moves target _ _ => some target
  | .keeps => none

def inProgress (t : Transition) : Option String :=
  match t.effect with
  | .moves _ inProgress _ => inProgress
  | .keeps => none

/-- The action that a success goes on with. -/
def next (t : Transition) : Option String :=
  match t.effect with
  | .moves _ _ next => next
  | .keeps => none

def isAction (t : Transition) : Bool :=
  t.effect == .keeps

/-- The states that a run may write. -/
def writes (t : Transition) : List String :=
  [t.target, t.inProgress, t.failed].filterMap id

theorem mem_writes {t : Transition} {state : String} :
    state ∈ t.writes ↔ t.target = some state ∨ t.inProgress = some state ∨ t.failed = some state := by
  simp [writes, eq_comm]

end Transition

end Workflow
