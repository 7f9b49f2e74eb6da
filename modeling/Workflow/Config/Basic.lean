/-!
# Configuration

How long locks last and what their keys start with, how many events are held, and where side effects
run.
-/

namespace Workflow

/-- Where side effects run. -/
inductive ExecutorMode
  /-- Before the call that started them returns. -/
  | inline
  /-- On a pool of threads; their outcome is told by events only. -/
  | blockingPool
deriving DecidableEq, Repr

structure Config where
  lockTtl : Nat
  lockPrefix : String
  eventCapacity : Nat
  executor : ExecutorMode
deriving DecidableEq, Repr

namespace Config

def standard : Config :=
  ⟨7 * 24 * 60 * 60, "flowgate-lock", 1024, .inline⟩

/-- What makes a configuration unusable. -/
inductive Flaw
  | zeroTtl
  | emptyPrefix
  | zeroCapacity
deriving DecidableEq, Repr

def Flaw.message : Flaw → String
  | zeroTtl => "locks.ttl_secs must be greater than zero"
  | emptyPrefix => "locks.key_prefix must not be empty"
  | zeroCapacity => "events.channel_capacity must be greater than zero"

def flaw? (c : Config) : Option Flaw :=
  if c.lockTtl = 0 then some .zeroTtl
  else if c.lockPrefix = "" then some .emptyPrefix
  else if c.eventCapacity = 0 then some .zeroCapacity
  else none

end Config

end Workflow
