import Workflow.Proofs.Engine.HandingOver
import Workflow.Proofs.Introspection

/-!
# Chaining

A completed transition goes on with the one transition that is available for its next action, or says how many there
are. Whatever comes of the other one is none of its own outcome.
-/

namespace Workflow

/-- What becomes of a transition that was gone on with: its error is told, and is none of the one that goes on. -/
def absorb (k : StateKey) (next : String) :
    Option (Except EngineError Unit) × World → Option (Except EngineError Unit) × World
  | (some (.error e), w) => (some (.ok ()), w.emit ⟨k, next, .continuationFailed e.message⟩)
  | (r, w) => (r, w)

theorem absorb_fst (k : StateKey) (next : String) (run : Option (Except EngineError Unit) × World) :
    (absorb k next run).1 = none ∨ (absorb k next run).1 = some (.ok ()) := by
  obtain ⟨_ | _ | _, w⟩ := run
  · exact .inl rfl
  · exact .inr rfl
  · exact .inr rfl

namespace ViewM

variable {α : Type}

end ViewM

namespace Transition

variable (engine : Engine) (start : Start) (t : Transition)

variable {engine start t} {u : Transition} {ts : List Transition} {next : String} {context : Context} {root : Process}
  {v v' : View} {w w' : World}

end Transition

/-- How a transition goes on from the world in which its callbacks are over, where these transitions are found. -/
structure ChainsOn (engine : Engine) (depth : Nat) (t : Transition) (k : StateKey) (next : String) (context : Context)
    (root : Process) (ended : World) (found : List Transition) (run : Option (Except EngineError Unit) × World) :
    Prop where
  /-- What is available to the caller of the context, on a fresh view. -/
  lists : ∃ v w, EngineM.outcome ((root.available engine ⟨context.user, some next⟩ .all).run (.fresh k)) ended =
    (some (found.map .ok, v), w)
  /-- The only one is started, with no failure in the context; its errors are told and go no further. -/
  alone : ∀ u, found = [u] → ended.Launched u k context.withoutFailure run.2 ∧ ∃ v w, v.key = k ∧ ended.Asked w ∧
    run = absorb k next ((Transition.execute engine depth u context.withoutFailure (some root)).answer v w)
  /-- Otherwise their number is told, and questions were asked. -/
  skipped : found.length ≠ 1 → ∃ w, ended.Asked w ∧
    run = (some (.ok ()), w.emit ⟨k, t.action, .chainSkipped next found.length⟩)

namespace ChainsOn

variable {engine : Engine} {depth : Nat} {t : Transition} {k : StateKey} {next : String} {context : Context}
  {root : Process} {ended : World} {found : List Transition} {run : Option (Except EngineError Unit) × World}
  (h : ChainsOn engine depth t k next context root ended found run)

include h

/-- Whatever was gone on with, it is a success unless it never ends. -/
theorem result : run.1 = none ∨ run.1 = some (.ok ()) := by
  by_cases hone : found.length = 1
  · obtain ⟨u, hu⟩ := List.length_eq_one_iff.1 hone
    obtain ⟨-, _, _, -, -, hrun⟩ := h.alone u hu
    exact hrun ▸ absorb_fst ..
  · obtain ⟨_, -, hrun⟩ := h.skipped hone
    exact .inr (congrArg Prod.fst hrun)

end ChainsOn

namespace Transition

variable {engine : Engine} {t : Transition} {v : View} {w : World} {context : Context} {root : Option Process}

end Transition

/-- Where the job of a transition leads, its side effects being over. -/
structure Aftermath.Leads {engine : Engine} {depth : Nat} {t : Transition} {k : StateKey}
    {failure : Option CommandFailure} {c : Context} {w : World}
    (a : Aftermath engine (Transition.execute engine depth) t k failure c w) (root : Option Process)
    (run : Option (Except EngineError Unit) × World) : Prop where
  /-- By the end of the callbacks nothing was started or skipped. -/
  unchained : w.Unchained a.world
  /-- That is the end where a side effect has failed, for actions, and where there is no next action. -/
  stops : failure.isSome ∨ t.isAction = true ∨ t.next = none → run = (some (.ok ()), a.world)
  /-- What was started on its own finds nothing to go on with. -/
  unrooted : ∀ next, failure = none → t.next = some next → root = none →
    run = (some (.ok ()), a.world.emit ⟨k, t.action, .chainSkipped next 0⟩)
  /-- What belongs to a process goes on there, and is a success whose target was written all the same. -/
  chains : ∀ next p state, failure = none → t.next = some next → root = some p →
    a.world.entities.getField k = .ok (.str state) →
    (∃ found, ChainsOn engine depth t k next a.left.context p a.world found run) ∧
      (run.1 = none ∨ run.1 = some (.ok ())) ∧ ∀ target, t.target = some target → w.Wrote k target run.2

namespace Transition

variable {engine : Engine} {t : Transition}

end Transition

end Workflow
