import Workflow.Json.Basic

/-!
# Definitions

Processes as data: the shape of a process with names in place of predicates and commands.
-/

namespace Workflow

structure TransitionDefinition where
  action : String
  sources : List String
  target : Option String
  inProgress : Option String
  failed : Option String
  conditions : List String
  permissions : List String
  sideEffects : List String
  callbacks : List String
  failureCallbacks : List String
  next : Option String
deriving DecidableEq, Repr

structure ProcessDefinition where
  name : String
  conditions : List String
  permissions : List String
  transitions : List TransitionDefinition
  nested : List ProcessDefinition
deriving Repr

def TransitionDefinition.blank : TransitionDefinition :=
  ⟨"", [], none, none, none, [], [], [], [], [], none⟩

def ProcessDefinition.blank : ProcessDefinition :=
  ⟨"", [], [], [], []⟩

/-! ## As JSON -/

namespace Json

/-- A member for a list, left out when the list is empty. -/
def listMember (name : String) (texts : List String) : List (String × Json) :=
  if texts.isEmpty then [] else [(name, strings texts)]

def optionMember (name : String) (text : Option String) : List (String × Json) :=
  match text with
  | some s => [(name, .str s)]
  | none => []

end Json

open Json in
def TransitionDefinition.toJson (t : TransitionDefinition) : Json :=
  .object <|
    [("action", .str t.action), ("sources", strings t.sources)] ++
    optionMember "target" t.target ++
    optionMember "in_progress" t.inProgress ++
    optionMember "failed" t.failed ++
    listMember "conditions" t.conditions ++
    listMember "permissions" t.permissions ++
    listMember "side_effects" t.sideEffects ++
    listMember "callbacks" t.callbacks ++
    listMember "failure_callbacks" t.failureCallbacks ++
    optionMember "next" t.next

namespace ProcessDefinition

open Json

mutual

def toJson : ProcessDefinition → Json
  | ⟨name, conditions, permissions, transitions, nested⟩ =>
    .object <|
      [("name", .str name)] ++
      listMember "conditions" conditions ++
      listMember "permissions" permissions ++
      [("transitions", .arr (transitions.map TransitionDefinition.toJson))] ++
      (if nested.isEmpty then [] else [("nested", .arr (toJsonAll nested))])

def toJsonAll : List ProcessDefinition → List Json
  | [] => []
  | d :: ds => d.toJson :: toJsonAll ds

end

end ProcessDefinition

end Workflow
