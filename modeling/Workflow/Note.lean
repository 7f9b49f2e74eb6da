import Workflow.Context

/-!
# Notes

What commands and continuations write into the journal themselves.
-/

namespace Workflow

inductive Note
  | acquired (command : String) (taken : Bool)
  | observed (command : String) (key : StateKey) (stored memoized : Except EngineError String)
      (locked : Except EngineError Bool) (context : Context)
  | invoked (command action : String) (outcome : Except EngineError Unit)
  | succeeded (context : Context)
  | failed (context : Context) (failure : CommandFailure)

end Workflow
