import Workflow.Proofs.Engine.Obeying
import Workflow.Proofs.Engine.Resolving

/-!
# Steps that write no entity

A transition changes the world in many steps, of which few write an entity. What the others keep is kept by
all that is done around the writes.
-/

namespace Workflow

/-- What is done for a transition on the field `k`, but for its writes and for jobs. -/
inductive Quiet (engine : Engine) (k : StateKey) (w : World) : World → Prop
  | struck (call : StoreCall) : Quiet engine k w (w.struck call)
  | remarked (e : Entry) (h : e.isRemark = true) : Quiet engine k w (w.record e)
  | told (action : String) (kind : EventKind) (h : kind.isChange = false) :
    Quiet engine k w (w.emit ⟨k, action, kind⟩)
  | locked (h : w.locks.isHeld (k.lockKey engine.config.lockPrefix) = false) :
    Quiet engine k w (w.lock (k.lockKey engine.config.lockPrefix) engine.config.lockTtl)
  | unlocked : Quiet engine k w (w.unlock (k.lockKey engine.config.lockPrefix))
  | tookOff : Quiet engine k w (w.takeOff k)
  | started (s : Started) (h : s.key = k) : Quiet engine k w (w.record (.started s))
  | landed (number : Nat) : Quiet engine k w (w.land ⟨number, k⟩)

/-- Entries of which none tells of an entity that was written or removed. -/
def Entry.isQuiet : Entry → Bool
  | wrote .. | removed .. => false
  | emitted e => !e.kind.isChange
  | _ => true

namespace Quiet

variable {engine : Engine} {k : StateKey} {w w' : World} (h : Quiet engine k w w')

include h

theorem entities : w'.entities = w.entities := by
  cases h <;> rfl

theorem pending : w'.pending = w.pending := by
  cases h <;> rfl

theorem faults : w'.faults = w.faults ∨ ∃ call, w'.faults = (Fault.strike call w.faults).2 := by
  cases h with
  | struck call => exact .inr ⟨call, rfl⟩
  | _ => exact .inl rfl

theorem faults_nil (hw : w.faults = []) : w'.faults = [] := by
  obtain heq | ⟨call, heq⟩ := h.faults
  · rw [heq, hw]
  · rw [heq, hw]
    rfl

/-- At most one thing is recorded, and it is a quiet one. -/
theorem journal : w'.journal = w.journal ∨
    ∃ e : Entry, e.isQuiet = true ∧ w'.journal = ⟨e, w'.toScene⟩ :: w.journal := by
  cases h with
  | struck call => exact .inl rfl
  | tookOff => exact .inl rfl
  | remarked e he =>
      refine .inr ⟨e, ?_, rfl⟩
      cases e <;> first | rfl | cases he
  | told action kind hkind => exact .inr ⟨_, by simp [Entry.isQuiet, hkind], rfl⟩
  | locked => exact .inr ⟨_, rfl, rfl⟩
  | unlocked => exact .inr ⟨_, rfl, rfl⟩
  | started s => exact .inr ⟨_, rfl, rfl⟩
  | landed number => exact .inr ⟨_, rfl, rfl⟩

end Quiet

/-- What remains true through quiet steps, looked at through a view of the field. -/
structure Still (engine : Engine) (k : StateKey) (P : View × World → Prop) : Prop where
  onKey : ∀ {s}, P s → s.1.key = k
  quiet : ∀ {v w w'}, Quiet engine k w w' → P (v, w) → P (v, w')
  reread : ∀ {v w e}, w.entities.find? v.key.kind v.key.id = some e → P (v, w) → P (v.remember e, w)

namespace Still

variable {engine : Engine} {k : StateKey} {P : View × World → Prop} {X : Exits (View × World)}
  (hP : Still engine k P)

include hP

theorem viewing : Viewing P where
  struck call h := hP.quiet (.struck call) h
  remarked he h := hP.quiet (.remarked _ he) h
  reread he h := hP.reread he h

theorem takes (hX : X.Back P) : X.Takes P :=
  hX.takes hP.viewing.reading

theorem report_meets (t : Transition) (kind : EventKind) (hkind : kind.isChange = false) :
    Meets P (t.report kind) (fun _ => P) X :=
  t.report_tells fun v w h => by
    have htold := hP.quiet (.told t.action kind hkind) h
    rwa [← hP.onKey h] at htold

theorem lock_meets (hX : X.Back P) : Meets P (ViewM.lock engine) (fun _ => P) X := by
  refine .point fun s hs => .bindKnown (ViewM.lockKey_meets engine s) ?_
  obtain rfl := hP.onKey hs
  refine ViewM.ofCall_meets fun v => CallM.acquire_meets ?_ ?_ ?_
  · intro w m h _
    cases h
    exact hX _ _ (hP.quiet (.remarked _ rfl) (hP.quiet (.struck .acquire) hs))
  · intro w h _
    cases h
    exact hP.quiet (.struck .acquire) hs
  · intro w h hfree
    cases h
    exact hP.quiet (.locked hfree) (hP.quiet (.struck .acquire) hs)

theorem unlock_meets (hX : X.Back P) : Meets P (ViewM.unlock engine) (fun _ => P) X := by
  refine .point fun s hs => .bindKnown (ViewM.lockKey_meets engine s) ?_
  obtain rfl := hP.onKey hs
  refine ViewM.ofCall_meets fun v => CallM.release_meets ?_ ?_
  · intro w m h _
    cases h
    exact hX _ _ (hP.quiet (.remarked _ rfl) (hP.quiet (.struck .release) hs))
  · intro w h
    cases h
    exact hP.quiet .unlocked (hP.quiet (.struck .release) hs)

theorem release_meets (hX : X.Back P) (t : Transition) (number : Option Nat) :
    Meets P (t.release engine number) (fun _ => P) X := by
  unfold Transition.release
  extract_lets rest
  have hrest (u) : Meets P (rest u) (fun _ => P) X :=
    .bind (hP.unlock_meets hX) fun _ => hP.report_meets t _ rfl
  split
  · rename_i n
    refine .point fun s hs => .bindKnown (ViewM.key_meets s) (.bind (M := fun _ => P) ?_ hrest)
    refine ViewM.ofEngine_meets fun v => EngineM.modify_meets fun w h => ?_
    cases h
    obtain rfl := hP.onKey hs
    exact hP.quiet (.landed n) hs
  · exact hrest ()

theorem recordStart_meets (t : Transition) (context : Context) :
    Meets P (t.recordStart context) (fun _ => P) X := by
  refine .point fun s hs => .bindKnown (ViewM.getView_meets s) ?_
  refine .bindKnown (ViewM.getWorld_meets s) ?_
  obtain ⟨v, w⟩ := s
  obtain rfl := hP.onKey hs
  refine .bind (M := fun _ => P) ?_ fun n => .bind (M := fun _ => P) ?_ fun _ => .pure fun _ h => h
  · refine ViewM.ofEngine_meets fun v' => .point fun _ h => ?_
    cases h
    refine (EngineM.takeOff_meets v.key w).post fun _ _ h => ?_
    rw [h.2]
    exact hP.quiet .tookOff hs
  · exact ViewM.ofEngine_meets fun v' => EngineM.modify_meets fun w' h => hP.quiet (.started _ rfl) h

end Still

end Workflow
