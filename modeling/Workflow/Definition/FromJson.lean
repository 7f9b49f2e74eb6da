import Workflow.Definition.Basic
import Workflow.Error
import Workflow.Json.Reader

/-!
# Reading definitions from JSON

The sources of a transition may be a single text. Lists and options may be absent, and an option may be
`null`.
-/

namespace Workflow

namespace Json

def texts (depth : Nat) : Reader (List String) :=
  list "a sequence" depth fun _ => plainText

def textOrTexts (depth : Nat) : Reader (List String)
  | .string (some s) :: rest => .ok ([s], rest)
  | .beginObject :: rest =>
    if depth = 0 then .error .malformed
    else wrongType "a string or array of strings" (.beginObject :: rest)
  | tokens => list "a string or array of strings" depth (fun _ => plainText) tokens

end Json

open Json

namespace TransitionDefinition

def fields (depth : Nat) : List (RecordField TransitionDefinition) :=
  [.of "action" true plainText fun s t => { t with action := s },
   .of "sources" true (textOrTexts depth) fun l t => { t with sources := l },
   .of "target" false (optional plainText) fun s t => { t with target := s },
   .of "in_progress" false (optional plainText) fun s t => { t with inProgress := s },
   .of "failed" false (optional plainText) fun s t => { t with failed := s },
   .of "conditions" false (texts depth) fun l t => { t with conditions := l },
   .of "permissions" false (texts depth) fun l t => { t with permissions := l },
   .of "side_effects" false (texts depth) fun l t => { t with sideEffects := l },
   .of "callbacks" false (texts depth) fun l t => { t with callbacks := l },
   .of "failure_callbacks" false (texts depth) fun l t => { t with failureCallbacks := l },
   .of "next" false (optional plainText) fun s t => { t with next := s }]

def read (depth : Nat) : Reader TransitionDefinition :=
  record "TransitionDefinition" depth fields blank

end TransitionDefinition

namespace ProcessDefinition

/-- The fields of a process in their order, given how a nested process is read. -/
def fields (nested : Reader ProcessDefinition) (depth : Nat) : List (RecordField ProcessDefinition) :=
  [.of "name" true plainText fun s p => { p with name := s },
   .of "conditions" false (texts depth) fun l p => { p with conditions := l },
   .of "permissions" false (texts depth) fun l p => { p with permissions := l },
   .of "transitions" false (list "a sequence" depth TransitionDefinition.read) fun l p =>
     { p with transitions := l },
   .of "nested" false (list "a sequence" depth fun _ => nested) fun l p => { p with nested := l }]

/-- A nested process stands two containers deeper: in the object and in its list of processes. -/
def read : Nat → Reader ProcessDefinition
  | depth + 2 => record "ProcessDefinition" (depth + 2) (fields (read depth)) blank
  | depth => record "ProcessDefinition" depth (fields fun _ => .error .malformed) blank

def ofJson (text : String) : Except EngineError ProcessDefinition :=
  (readText read text).mapError EngineError.json

end ProcessDefinition

end Workflow
