import Workflow.Proofs.Engine.HandingOver

/-!
# The order of commands

Side effects are called under the lock and in the in-progress state, callbacks behind the unlock and in the state that
the outcome of the side effects calls for. Nothing else is called.
-/

namespace Workflow

namespace Locker

end Locker

namespace Transition

variable {engine : Engine} {t : Transition} {v : View} {w : World}

end Transition

end Workflow
