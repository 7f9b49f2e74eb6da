import Workflow.Definition.Basic
import Workflow.Error
import Workflow.Yaml.Reader
import Workflow.Yaml.Record

/-!
# Reading definitions from YAML

The fields are those of the JSON form. Every scalar counts as its text, except that the sources have to
be texts by themselves.
-/

namespace Workflow

open Yaml

namespace TransitionDefinition

def members (depth : Nat) : List (RecordField TransitionDefinition) :=
  [.of "action" true Node.text? fun s t => { t with action := s },
   .of "sources" true (textOrTexts depth) fun l t => { t with sources := l },
   .of "target" false optionalText fun s t => { t with target := s },
   .of "in_progress" false optionalText fun s t => { t with inProgress := s },
   .of "failed" false optionalText fun s t => { t with failed := s },
   .of "conditions" false (texts depth) fun l t => { t with conditions := l },
   .of "permissions" false (texts depth) fun l t => { t with permissions := l },
   .of "side_effects" false (texts depth) fun l t => { t with sideEffects := l },
   .of "callbacks" false (texts depth) fun l t => { t with callbacks := l },
   .of "failure_callbacks" false (texts depth) fun l t => { t with failureCallbacks := l },
   .of "next" false optionalText fun s t => { t with next := s }]

def ofNode (depth : Nat) : NodeReader TransitionDefinition :=
  Yaml.record depth members blank

end TransitionDefinition

namespace ProcessDefinition

/-- The fields of a process by their keys, given how a nested process is read. -/
def members (nested : NodeReader ProcessDefinition) (depth : Nat) :
    List (RecordField ProcessDefinition) :=
  [.of "name" true Node.text? fun s p => { p with name := s },
   .of "conditions" false (texts depth) fun l p => { p with conditions := l },
   .of "permissions" false (texts depth) fun l p => { p with permissions := l },
   .of "transitions" false (Yaml.list depth TransitionDefinition.ofNode) fun l p =>
     { p with transitions := l },
   .of "nested" false (Yaml.list depth fun _ => nested) fun l p => { p with nested := l }]

/-- A nested process stands two collections deeper: in the mapping and in its sequence of processes. -/
def ofNode : Nat → NodeReader ProcessDefinition
  | depth + 2 => Yaml.record (depth + 2) (members (ofNode depth)) blank
  | depth => Yaml.record depth (members fun _ => none) blank

def ofYaml (text : String) : Except EngineError ProcessDefinition :=
  match (Node.ofText? text).bind (ofNode maxDepth) with
  | some d => .ok d
  | none => .error .yaml

end ProcessDefinition

end Workflow
