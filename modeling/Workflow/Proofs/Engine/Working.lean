import Workflow.Proofs.Engine.Alike

/-!
# Working on a field

Commands that neither remove an entity nor start a transition write fields, add to the journal and take and
release locks. What all of that keeps is kept by such commands, and by a transition that comes to its unlock.
-/

namespace Workflow

/-- What remains true when locks are taken and released and transitions land, besides all writes. -/
structure Working (P : View × World → Prop) : Prop extends Writing P where
  locked : ∀ {v w} lockKey ttl, P (v, w) → P (v, w.lock lockKey ttl)
  unlocked : ∀ {v w} lockKey, P (v, w) → P (v, w.unlock lockKey)
  landed : ∀ {v w} flight, P (v, w) → P (v, w.land flight)

namespace Working

variable {engine : Engine} {P : View × World → Prop} {X : Exits (View × World)} (hP : Working P)

include hP

theorem lock_meets (hX : X.Takes P) : Meets P (ViewM.lock engine) (fun _ => P) X := by
  refine .point fun s hs => .bindKnown (ViewM.lockKey_meets engine s) ?_
  refine (ViewM.ofCall_meets fun v => CallM.acquire_meets (P := fun w => P (v, w)) ?_ ?_ ?_).pre fun _ h => h ▸ hs
  · exact fun w m h hw => hX v w .acquire _ rfl h fun hs => hw hs.1
  · exact fun w h _ => hP.struck .acquire h
  · exact fun w h _ => hP.locked _ _ (hP.struck .acquire h)

theorem unlock_meets (hX : X.Takes P) : Meets P (ViewM.unlock engine) (fun _ => P) X := by
  refine .point fun s hs => .bindKnown (ViewM.lockKey_meets engine s) ?_
  refine (ViewM.ofCall_meets fun v => CallM.release_meets (P := fun w => P (v, w)) ?_ ?_).pre fun _ h => h ▸ hs
  · exact fun w m h hw => hX v w .release _ rfl h fun hs => hw hs.1
  · exact fun w h => hP.unlocked _ (hP.struck .release h)

/-- What an operation of its own meets with is its answer, and no error of the command. -/
theorem run_meets {start : Start} (op : Op) (hop : op.isOwn = true) :
    Meets P (op.run engine start) (fun _ => P) X := by
  have htakes : (Exits.mk (fun _ => P) X.cut).Takes P := Exits.Back.takes (fun _ _ h => h) hP.reading
  cases op with
  | lock => exact .liftCommand (hP.lock_meets htakes).attempt
  | unlock => exact .liftCommand (hP.unlock_meets htakes).attempt
  | removeEntity | invoke => cases hop
  | _ => exact Op.run_meets hP.toActing _ rfl

theorem release_meets (hX : X.Takes P) (t : Transition) (number : Option Nat) :
    Meets P (t.release engine number) (fun _ => P) X := by
  unfold Transition.release
  extract_lets rest
  have hrest (u) : Meets P (rest u) (fun _ => P) X :=
    .bind (hP.unlock_meets hX) fun _ => t.report_meets hP.toWriting _
  split
  · refine .point fun s hs => .bindKnown (ViewM.key_meets s) (.bind (M := fun _ => P) ?_ hrest)
    exact (ViewM.ofEngine_meets fun v => EngineM.modify_meets fun w h => hP.landed _ h).pre fun _ h => h ▸ hs
  · exact hrest ()

end Working

end Workflow
