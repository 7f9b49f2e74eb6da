import Workflow.Engine.Run

/-!
# Pending jobs

Taking jobs from the queue, and letting the pool work until nothing is left, jobs that come up meanwhile
included.
-/

namespace Workflow

namespace EngineM

/-- The first job of the queue. -/
def takeQueued : EngineM (Option Job) := do
  match (← get).queue with
  | [] => return none
  | job :: queue =>
    modify fun w => { w with queue := queue }
    return some job

/-- The first job of the pool. -/
def takePooled : EngineM (Option Job) := do
  match (← get).pool with
  | [] => return none
  | job :: pool =>
    modify fun w => { w with pool := pool }
    return some job

/-- Runs the jobs of the pool until none is left, at most as many as the bound; gives their number. -/
def settlePool (engine : Engine) (start : Start) : Nat → EngineM Nat
  | 0 => tooDeep
  | bound + 1 => do
    match ← takePooled with
    | none => return 0
    | some job =>
      job.runDetached engine start
      return (← settlePool engine start bound) + 1

end EngineM

end Workflow
