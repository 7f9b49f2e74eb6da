import Workflow.Error
import Workflow.Event.Basic
import Workflow.Store.Fault
import Workflow.Transition

/-!
# Journal

Everything that happens in a run, in its order: the calls of predicates and commands, the notes they
write, the successful calls that change a store, the store calls that fail, the starts of transitions, the
points at which they come to their unlock, and the events.
-/

namespace Workflow

/-- A transition that has its lock and has not come to its unlock, by the number of its start. -/
structure Flight where
  number : Nat
  key : StateKey
deriving DecidableEq, Repr

/-- What is known of a transition at the moment at which it has its lock. -/
structure Started where
  number : Nat
  transition : Transition
  key : StateKey
  /-- The field in the store. -/
  stored : Option Json
  /-- The entity as the view remembers it, on which the transition was chosen. -/
  memo : Option Entity
  context : Context

/-- One thing that happened. -/
inductive Entry
  | condition (condition : Condition) (entity : Entity) (result : Bool)
  | permission (permission : Permission) (entity : Entity) (caller : Caller) (result : Bool)
  | command (name : String) (key : StateKey) (context : Context)
  | note (note : Note)
  | wrote (key : StateKey) (value : Json)
  | removed (kind id : String)
  | acquired (lockKey : String)
  | released (lockKey : String)
  /-- The call gave the error and did nothing. -/
  | failed (call : StoreCall) (error : EngineError)
  | started (start : Started)
  | landed (flight : Flight)
  | emitted (event : Event)

/-- The transition that was started, as one in flight. -/
def Started.flight (s : Started) : Flight :=
  ⟨s.number, s.key⟩

end Workflow
