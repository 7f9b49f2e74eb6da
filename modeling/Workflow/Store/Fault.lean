/-!
# Faults

Planned failures of store calls. A fault lets some calls pass and hits the next one, once; the earliest
fault planned for a call takes all of its calls until it has hit.
-/

namespace Workflow

/-- The calls of the entity store and the lock store. -/
inductive StoreCall
  | fetch
  | getField
  | setField
  | acquire
  | release
  | isHeld
deriving DecidableEq, Repr

/-- What a fault does to the call that it hits. -/
inductive FaultEffect
  | fails (message : String)
  /-- The lock is not acquired, as if another holder had been faster. -/
  | loses
deriving DecidableEq, Repr

structure Fault where
  call : StoreCall
  /-- How many calls still pass. -/
  skip : Nat
  effect : FaultEffect
deriving DecidableEq, Repr

namespace Fault

def strike (call : StoreCall) : List Fault → Option FaultEffect × List Fault
  | [] => (none, [])
  | f :: rest =>
    if f.call = call then
      match f.skip with
      | 0 => (some f.effect, rest)
      | n + 1 => (none, { f with skip := n } :: rest)
    else
      let (effect, rest) := strike call rest
      (effect, f :: rest)

@[simp] theorem strike_nil (call : StoreCall) : strike call [] = (none, []) := rfl

end Fault

end Workflow
