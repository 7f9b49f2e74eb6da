import Workflow.Process

/-!
# Descriptions

Transitions and processes as JSON, with predicates and commands by their names.
-/

namespace Workflow

namespace Transition

def describe (t : Transition) : Json :=
  let names (commands : List Command) : Json := .strings (commands.map Command.name)
  .object
    [("kind", .str (if t.isAction then "action" else "transition")),
     ("action", .str t.action),
     ("sources", .strings t.sources),
     ("target", .ofString? t.target),
     ("in_progress", .ofString? t.inProgress),
     ("failed", .ofString? t.failed),
     ("next", .ofString? t.next),
     ("conditions", .strings (t.conditions.map Condition.name)),
     ("permissions", .strings (t.permissions.map Permission.name)),
     ("side_effects", names t.sideEffects),
     ("callbacks", names t.callbacks),
     ("failure_callbacks", names t.failureCallbacks)]

end Transition

namespace Process

mutual

def describe : Process → Json
  | ⟨name, conditions, permissions, transitions, nested⟩ =>
    .object
      [("name", .str name),
       ("conditions", .strings (conditions.map Condition.name)),
       ("permissions", .strings (permissions.map Permission.name)),
       ("transitions", .arr (transitions.map Transition.describe)),
       ("nested", .arr (describeAll nested))]

def describeAll : List Process → List Json
  | [] => []
  | p :: ps => p.describe :: describeAll ps

end

end Process

end Workflow
