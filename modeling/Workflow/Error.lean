import Workflow.Entity
import Workflow.Guard.Error
import Workflow.Json.Error

/-!
# Errors

The causes for which the engine refuses or fails, their texts and their classification.
-/

namespace Workflow

/-- Why a transition may not be started. -/
inductive Refusal
  | locked
  | noMatch
  | ambiguous (count : Nat)
deriving DecidableEq, Repr

/-- Why a definition describes no process. -/
inductive DefinitionError
  | blankProcessName
  | blankActionName
  | noSources (action : String)
  | actionInProgress (action : String)
  | actionNext (action : String)
deriving DecidableEq, Repr

inductive EngineError
  | notAllowed (action : String) (reason : Refusal)
  | entityNotFound (kind id : String)
  | fieldNotFound (key : StateKey)
  | invalidStateValue (field : String)
  | processNotBound (kind process : String)
  | invalidDefinition (cause : DefinitionError)
  | invalidGuard (cause : GuardError)
  | unknownCommand (name : String)
  | store (message : String)
  | lockStore (message : String)
  | executor (message : String)
  | json (cause : Json.ReadError)
  | yaml
deriving DecidableEq, Repr

/-- A command that ended with an error, by the error's text. -/
structure CommandFailure where
  command : String
  error : String
deriving DecidableEq, Repr

def Refusal.message : Refusal → String
  | locked => "state is locked"
  | noMatch => "no available transition"
  | ambiguous n => toString n ++ " transitions available, expected exactly one"

def DefinitionError.reason : DefinitionError → String
  | blankProcessName => "process name must not be empty"
  | blankActionName => "action name must not be empty"
  | noSources action => "transition '" ++ action ++ "' has no source states"
  | actionInProgress action => "action '" ++ action ++ "' cannot have an in-progress state"
  | actionNext action => "action '" ++ action ++ "' cannot chain a next transition"

def CommandFailure.message (f : CommandFailure) : String :=
  "command '" ++ f.command ++ "' failed: " ++ f.error

namespace EngineError

def message : EngineError → String
  | notAllowed action reason => "transition '" ++ action ++ "' not allowed: " ++ reason.message
  | entityNotFound kind id => "entity not found: " ++ kind ++ "/" ++ id
  | fieldNotFound key =>
    "field '" ++ key.field ++ "' not found on " ++ key.kind ++ "/" ++ key.id
  | invalidStateValue field => "state field '" ++ field ++ "' does not hold a string value"
  | processNotBound kind process =>
    "process '" ++ process ++ "' is not bound to entity kind '" ++ kind ++ "'"
  | invalidDefinition cause => "invalid process definition: " ++ cause.reason
  | invalidGuard cause => "invalid guard expression: " ++ cause.reason
  | unknownCommand name => "unknown command: " ++ name
  | store m => "entity store error: " ++ m
  | lockStore m => "lock store error: " ++ m
  | executor m => "executor error: " ++ m
  | json cause => "JSON error: " ++ cause.message
  | yaml => "YAML error"

def code : EngineError → String
  | notAllowed .. => "TRANSITION_NOT_ALLOWED"
  | entityNotFound .. => "ENTITY_NOT_FOUND"
  | fieldNotFound .. => "FIELD_NOT_FOUND"
  | invalidStateValue .. => "INVALID_STATE_VALUE"
  | processNotBound .. => "PROCESS_NOT_BOUND"
  | store .. => "STORE_ERROR"
  | lockStore .. => "LOCK_STORE_ERROR"
  | executor .. => "EXECUTOR_ERROR"
  | invalidDefinition .. | invalidGuard .. | unknownCommand .. | json .. | yaml => "BAD_REQUEST"

/-- Whether the same call may succeed when it is made again. -/
def isRetryable : EngineError → Bool
  | store .. | lockStore .. => true
  | _ => false

def isNotAllowed : EngineError → Bool
  | notAllowed .. => true
  | _ => false

end EngineError

end Workflow
