import Workflow.Proofs.Engine.Concluding

/-!
# Up to the side effects

A transition that finds its lock free takes it, writes its in-progress state and hands its job over. What the executor
makes of the job is what the start comes to, unless it refuses it.
-/

namespace Workflow

namespace Job

variable (engine : Engine) (start : Start) (job : Job)

end Job

namespace Transition

variable (engine : Engine) (start : Start) (t : Transition) {v : View} {w : World} {stored remembered : String}

end Transition

end Workflow
