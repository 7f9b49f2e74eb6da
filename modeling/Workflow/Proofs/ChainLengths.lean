import Mathlib.Data.Finset.Card
import Mathlib.Logic.Relation
import Workflow.Proofs.Engine.Actions
import Workflow.Proofs.Engine.Working
import Workflow.Proofs.Runs

/-!
# The length of chains

A transition goes on with another one by its name. Where the names of a tree come back to none that was there
before, each start leaves fewer names to go on with. So an invocation comes to an end, having started at most as
many transitions as there are names.
-/

namespace Workflow

/-! ## Names that lead on -/

namespace Process

/-- Some transition of the one name goes on with the other. -/
def LeadsTo (p : Process) (a b : String) : Prop :=
  ∃ t ∈ p.allTransitions, t.action = a ∧ t.next = some b

/-- No name is come back to. -/
def Acyclic (p : Process) : Prop :=
  ∀ a, ¬ Relation.TransGen p.LeadsTo a a

def actionNames (p : Process) : List String :=
  Names.ofList (p.allTransitions.map Transition.action)

open Classical in
/-- The names that a chain from the given one may still come to, and this one. -/
noncomputable def onward (p : Process) (a : String) : Finset String :=
  p.actionNames.toFinset.filter fun b => Relation.ReflTransGen p.LeadsTo a b

variable {p : Process} {a b : String} {t : Transition}

theorem mem_onward : b ∈ p.onward a ↔ b ∈ p.actionNames ∧ Relation.ReflTransGen p.LeadsTo a b := by
  simp [onward]

theorem action_mem_actionNames (ht : t ∈ p.allTransitions) : t.action ∈ p.actionNames :=
  Names.mem_ofList.2 (List.mem_map_of_mem ht)

theorem action_mem_onward (ht : t ∈ p.allTransitions) : t.action ∈ p.onward t.action :=
  mem_onward.2 ⟨action_mem_actionNames ht, .refl⟩

theorem card_onward_le (p : Process) (a : String) : (p.onward a).card ≤ p.actionNames.length :=
  (Finset.card_le_card fun _ hb => List.mem_toFinset.2 (mem_onward.1 hb).1).trans (List.toFinset_card_le _)

/-- One step on, one name is left behind. -/
theorem card_onward_lt (hp : p.Acyclic) (h : p.LeadsTo a b) : (p.onward b).card < (p.onward a).card := by
  obtain ⟨t, ht, rfl, hnext⟩ := h
  have hleads : p.LeadsTo t.action b := ⟨t, ht, rfl, hnext⟩
  refine Finset.card_lt_card (Finset.ssubset_iff_of_subset ?_ |>.2 ⟨t.action, action_mem_onward ht, ?_⟩)
  · intro c hc
    obtain ⟨hmem, hreach⟩ := mem_onward.1 hc
    exact mem_onward.2 ⟨hmem, hreach.head hleads⟩
  · intro hback
    exact hp _ (.head' hleads (mem_onward.1 hback).2)

end Process

/-! ## Counting starts -/

/-- Jobs are run inline, and no more than `n` transitions were started. -/
structure World.Frugal (n : Nat) (w : World) : Prop where
  inline : w.executor = .inline
  starts : w.starts ≤ n

namespace World.Frugal

variable {n m : Nat} {w w' : World}

theorem next (h : w.Frugal n) (hexecutor : w'.executor = w.executor := by rfl)
    (hstarts : w'.starts = w.starts := by rfl) : w'.Frugal n :=
  ⟨hexecutor.trans h.inline, hstarts.le.trans h.starts⟩

theorem mono (h : w.Frugal n) (hle : n ≤ m) : w.Frugal m :=
  ⟨h.inline, h.starts.trans hle⟩

theorem working : Working fun s => s.2.Frugal n where
  struck _ h := h.next
  remarked _ h := h.next
  reread _ h := h
  wrote _ h := h.next
  emitted _ h := h.next
  locked _ _ h := h.next
  unlocked _ h := h.next
  landed _ h := h.next

/-- A computation may end with an error, but is not cut off. -/
def exits (n : Nat) : Exits (View × World) :=
  ⟨fun _ s => s.2.Frugal n, fun _ => False⟩

theorem takes : (exits n).Takes fun s => s.2.Frugal n :=
  Exits.Back.takes (fun _ _ h => h) working.reading

section

variable {engine : Engine} {start : Start}

theorem run_meets {X : Exits (View × World)} (op : Op) (hop : op.isInvoke = false) :
    Meets (fun s => s.2.Frugal n) (op.run engine start) (fun _ s => s.2.Frugal n) X := by
  cases op with
  | removeEntity =>
      exact .bind (Op.getView_meets.post fun _ _ h => h.1) fun v =>
        Op.ofEngine_meets fun v => EngineM.modify_meets fun w h => h.next
  | invoke => cases hop
  | _ => exact working.run_meets _ rfl

end

end World.Frugal

/-! ## Steps of a transition -/

/-- The computation is not cut off, and takes the number of starts from `n` to `m` at most. -/
abbrev ViewM.Spends {α : Type} (n m : Nat) (x : ViewM α) : Prop :=
  Meets (fun s => s.2.Frugal n) x (fun _ s => s.2.Frugal m) (World.Frugal.exits m)

theorem ViewM.Spends.within {α : Type} {n m m' : Nat} {x : ViewM α} (h : x.Spends n m) (hle : m ≤ m') :
    x.Spends n m' :=
  Meets.mono h (fun _ h => h) (fun _ _ h => h.mono hle) (fun _ _ h => h.mono hle) fun _ h => h

theorem ViewM.Spends.andThen {α β : Type} {n k m : Nat} {x : ViewM α} {f : α → ViewM β} (hx : x.Spends n k)
    (hf : ∀ a, (f a).Spends k m) (hle : k ≤ m) : (x >>= f).Spends n m :=
  Meets.bind (Meets.mono hx (fun _ h => h) (fun _ _ h => h) (fun _ _ h => h.mono hle) fun _ h => h) hf

/-- At this depth, what starts a transition of the tree spends no more than there are names onward. -/
def Process.Bounds (p : Process) (start : Start) (depth : Nat) : Prop :=
  ∀ t ∈ p.allTransitions, (p.onward t.action).card ≤ depth → ∀ (context : Context) (n : Nat),
    (start t context (some p)).Spends n (n + (p.onward t.action).card)

open World.Frugal

namespace Transition

variable {engine : Engine} {t : Transition} {n : Nat}

theorem recordStart_spends (context : Context) : (t.recordStart context).Spends n (n + 1) := by
  refine .point fun s hs => .bindKnown (ViewM.getView_meets s) (.bindKnown (ViewM.getWorld_meets s) ?_)
  refine .bind (M := fun _ s => s.2.Frugal (n + 1)) ?_ fun number =>
    .bind (M := fun _ s => s.2.Frugal (n + 1)) ?_ fun _ => .pure fun _ h => h
  · refine ViewM.ofEngine_meets fun v => .point fun w h => ?_
    cases h
    exact (EngineM.takeOff_meets v.key w).post fun _ _ h => h.2 ▸ ⟨hs.inline, Nat.succ_le_succ hs.starts⟩
  · exact ViewM.ofEngine_meets fun v => EngineM.modify_meets fun w h => h.next

theorem claim_spends (context : Context) : (t.claim engine context).Spends n (n + 1) := by
  have hback : (exits (n + 1)).Back fun s => s.2.Frugal n := fun _ _ h => h.mono n.le_succ
  have hworking : Working fun s => s.2.Frugal n := working
  have htakes := hback.takes hworking.reading
  refine .bind (ViewM.isLocked_meets hworking.reading engine htakes) fun locked => ?_
  extract_lets go rest
  have hrest (free : Bool) : (rest free).Spends n (n + 1) := by
    cases free with
    | true =>
        refine .bind (recordStart_spends context) fun n => ?_
        exact .bind (t.report_meets working.toWriting _) fun _ => .pure fun _ h => h
    | false =>
        refine .bind (t.report_meets working.toWriting _) fun _ => ?_
        exact .bind (M := fun _ _ => False) (.throw fun _ h => hback _ _ h) fun _ => .absurd
  split
  · exact .bind (.pure fun _ h => h) hrest
  · exact .bind (hworking.lock_meets htakes) hrest

end Transition

section

variable {engine : Engine} {start : Start} {p : Process} {depth n : Nat}

/-- What the chain starts is one of the name that it goes on with. -/
theorem Transition.chain_spends (hstart : p.Bounds start depth) (t : Transition) {next : String}
    (hnext : (p.onward next).card ≤ depth) (context : Context) :
    (t.chain engine start next context (some p)).Spends n (n + (p.onward next).card) := by
  have hmore {w : World} (h : w.Frugal n) : w.Frugal (n + (p.onward next).card) := h.mono (Nat.le_add_right ..)
  have hproceed : (t.proceed engine start next context p).Spends n (n + (p.onward next).card) := by
    have hreading : Reading fun s => s.2.Frugal n := working.reading
    have hcovers := Exits.covers_of_isOfStore hreading fun _ => False
    refine .bind ((p.candidates_picks hreading engine context.user next hcovers).mono (fun _ h => h)
      (fun _ _ h => h) (fun _ _ h => hmore h.2) fun _ h => h) fun ts => ?_
    split
    · rename_i u
      refine .point fun s hs => ?_
      obtain ⟨hmem, rfl, -, -⟩ := hs.2 u rfl
      exact (hstart u hmem hnext context.withoutFailure n).pre fun _ h => h ▸ hs.1
    · exact (t.report_meets working.toWriting _).mono (fun _ h => h.1) (fun _ _ h => hmore h)
        (fun _ _ h => h) fun _ h => h
  refine .point fun s hs => ?_
  exact (t.chain_steps s (hproceed.pre fun _ h => h ▸ hs) fun _ _ h => h.next).post fun _ _ h => h.2

variable (hp : p.Acyclic) (hstart : p.Bounds start depth) {t : Transition} (ht : t ∈ p.allTransitions)
  (hobeys : t.Obeys (·.isInvoke = false)) (hdepth : (p.onward t.action).card ≤ depth + 1)

include hp hstart ht hobeys hdepth

/-- One start is spent already. -/
theorem Transition.complete_spends (context : Context) (number : Option Nat) :
    (t.complete engine start context (some p) number).Spends (n + 1) (n + (p.onward t.action).card) := by
  have hpos : 0 < (p.onward t.action).card := Finset.card_pos.2 ⟨_, Process.action_mem_onward ht⟩
  have hsucceed : (t.succeed engine start context number).Spends (n + 1) (n + 1) :=
    t.succeed_meets working.toWriting takes (working.release_meets takes t number) working.toWriting run_meets
      hobeys.callbacks context
  refine hsucceed.andThen (fun context => ?_) (by omega)
  split
  · rename_i next hnext
    have hless := Process.card_onward_lt hp ⟨t, ht, rfl, hnext⟩
    exact (t.chain_spends hstart (by omega) context).within (by omega)
  · exact .pure fun _ h => h.mono (by omega)

theorem Job.run_spends (context : Context) (key : StateKey) (number : Nat) :
    Meets (World.Frugal (n + 1)) ((t.job key context (some p) number).run engine start)
      (fun _ => World.Frugal (n + (p.onward t.action).card)) (.only fun _ => False) := by
  have hpos : 0 < (p.onward t.action).card := Finset.card_pos.2 ⟨_, Process.action_mem_onward ht⟩
  have hended {m : ViewM Unit} (hm : m.Spends (n + 1) (n + (p.onward t.action).card)) :
      Meets (World.Frugal (n + 1)) (ViewM.onFresh key m) (fun _ => World.Frugal (n + (p.onward t.action).card))
        (.only fun _ => False) := by
    refine Meets.post (m := EngineM) (ViewM.onFresh_meets hm) fun r w ⟨_, h⟩ => ?_
    cases r <;> exact h
  have hsteps : Meets (fun s => s.2.Frugal (n + 1)) (Command.runAll engine start t.sideEffects)
      (fun _ s => s.2.Frugal (n + 1)) (exits (n + 1)) :=
    Command.runAll_meets working.toViewing run_meets _ hobeys.sideEffects
  have hfail (f : CommandFailure) (context : Context) :
      (t.fail engine start f context (some number)).Spends (n + 1) (n + 1) :=
    t.fail_meets working.toWriting takes (working.release_meets takes t _) working.toWriting run_meets
      hobeys.failureCallbacks f context
  refine .bind (m := EngineM) (hsteps context (.fresh key)) fun ⟨⟨failure, context⟩, _⟩ => ?_
  cases failure with
  | none => exact hended (Transition.complete_spends hp hstart ht hobeys hdepth context _)
  | some f => exact hended ((hfail f context).within (by omega))

/-- The executor runs the job at once, and refuses none. -/
theorem Transition.handOver_spends (context : Context) (number : Nat) (previous : Option String) :
    (t.handOver engine start context (some p) number previous).Spends (n + 1) (n + (p.onward t.action).card) := by
  refine .point fun s hs => .bindKnown (ViewM.key_meets s) ?_
  have hdispatch : Meets (World.Frugal (n + 1)) ((t.job s.1.key context (some p) number).dispatch engine start)
      (fun r w => (∀ reason, r ≠ .error (.rejected reason)) ∧ w.Frugal (n + (p.onward t.action).card))
      (.only fun _ => False) := by
    refine .bind (m := EngineM) EngineM.get_meets fun w => .point fun _ ⟨hw, h⟩ => ?_
    cases hw
    rw [h.inline]
    refine .bind (m := EngineM) ((Job.run_spends hp hstart ht hobeys hdepth context s.1.key number).pre
      fun _ heq => heq ▸ h) fun r => ?_
    cases r with
    | ok _ => exact .pure fun _ h => ⟨nofun, h⟩
    | error _ => exact .pure fun _ h => ⟨nofun, h⟩
  refine .bind (M := fun r s' => (∀ reason, r ≠ .error (.rejected reason)) ∧
    s'.2.Frugal (n + (p.onward t.action).card)) ?_ fun r => ?_
  · exact (ViewM.ofEngine_meets fun v => hdispatch).pre fun _ h => h ▸ hs
  · match r with
    | .ok () => exact .pure fun _ h => h.2
    | .error (.continuation e) => exact .throw fun _ h => h.2
    | .error (.rejected reason) => exact .point fun _ h => absurd rfl (h.1 reason)

theorem Transition.executeWith_spends (context : Context) :
    (t.executeWith engine start context (some p)).Spends n (n + (p.onward t.action).card) := by
  have hpos : 0 < (p.onward t.action).card := Finset.card_pos.2 ⟨_, Process.action_mem_onward ht⟩
  have henter : t.enter.Spends (n + 1) (n + 1) :=
    t.enter_meets working.toWriting takes fun _ _ _ h _ _ => h
  rw [Transition.executeWith_eq]
  refine (claim_spends context).andThen (fun number => ?_) (by omega)
  exact henter.andThen (Transition.handOver_spends hp hstart ht hobeys hdepth context number) (by omega)

end

namespace Process

variable {engine : Engine} {p : Process}

theorem execute_bounds (hp : p.Acyclic) (hobeys : p.Obeys (·.isInvoke = false)) (depth : Nat) :
    p.Bounds (Transition.execute engine depth) depth := by
  induction depth with
  | zero =>
      intro t ht hdepth
      exact absurd hdepth (Nat.not_le.2 (Finset.card_pos.2 ⟨_, action_mem_onward ht⟩))
  | succ depth ih =>
      intro t ht hdepth context n
      exact Transition.executeWith_spends hp ih ht (hobeys t ht) hdepth context

/--
Let no name of a tree lead back to itself, and let its commands start no transitions. Then an invocation under an
executor that runs jobs inline comes to an end, whatever the stores hold, whichever of their calls fail and whatever
else the commands do. No more transitions start one another than there are names of actions, and no more are started
in all.
-/
theorem invoke_terminates (hp : p.Acyclic) (hobeys : p.Obeys (·.isInvoke = false)) {depth : Nat}
    (hdepth : p.actionNames.length ≤ depth) (action : String) (user : Option Caller) (context : Context) (v : View)
    {w : World} (hinline : w.executor = .inline) :
    ∃ r v' w', (p.invoke engine depth action user context).outcome v w = (some (r, v'), w') ∧
      w'.starts ≤ w.starts + p.actionNames.length := by
  have hreread (n : Nat) : ViewM.Spends n n (do let _ ← ViewM.refresh) :=
    .bind (ViewM.reread_meets working.toViewing takes) fun _ => .pure fun _ h => h
  have hinvoke : (p.invoke engine depth action user context).Spends w.starts
      (w.starts + p.actionNames.length) := by
    have hmore {w' : World} (h : w'.Frugal w.starts) : w'.Frugal (w.starts + p.actionNames.length) :=
      h.mono (Nat.le_add_right ..)
    have hreading : Reading fun s => s.2.Frugal w.starts := working.reading
    have hcovers := Exits.covers_of_isOfStore hreading fun _ => False
    refine .bind ((p.candidates_picks hreading engine user action hcovers).mono (fun _ h => h)
      (fun _ _ h => h) (fun _ _ h => hmore h.2) fun _ h => h) fun ts => ?_
    split
    · rename_i t
      refine .point fun s hs => ?_
      obtain ⟨hmem, -, -, -⟩ := hs.2 t rfl
      have hcard := card_onward_le p t.action
      have hbounds : p.Bounds (Transition.execute engine depth) depth := execute_bounds hp hobeys depth
      have hstart := hbounds t hmem (by omega) (context.withUser user) w.starts
      exact ((hstart.andThen (fun _ => hreread _) le_rfl).within (by omega)).pre fun _ h => h ▸ hs.1
    · exact .throw fun _ h => hmore h.1
    · exact .throw fun _ h => hmore h.1
  obtain ⟨hends, hcut⟩ := hinvoke v w ⟨hinline, le_rfl⟩
  cases ho : (p.invoke engine depth action user context).outcome v w with
  | mk r w' =>
      cases r with
      | none => exact (hcut w' ho).elim
      | some r =>
          obtain ⟨r, v'⟩ := r
          refine ⟨r, v', w', rfl, ?_⟩
          have hfrugal := hends _ w' ho
          cases r with
          | ok _ => exact hfrugal.starts
          | error _ => exact hfrugal.starts

/-- The seal cannot be written. -/
theorem sealing_terminates :
    let w : World := { Locker.world .inline with faults := [⟨.setField, 1, .fails "disk full"⟩] }
    Locker.sealing.Acyclic ∧ Locker.sealing.Obeys (·.isInvoke = false) ∧ Locker.sealing.actionNames.length ≤ 2 ∧
    w.executor = .inline ∧
    ∃ r v' w', (Locker.sealing.invoke (Locker.engine []) 2 "lock" none .empty).outcome (.fresh Locker.field) w =
      (some (r, v'), w') ∧ w'.starts ≤ w.starts + Locker.sealing.actionNames.length := by
  intro w
  have hleads {a b : String} (h : Locker.sealing.LeadsTo a b) : a = "lock" ∧ b = "seal" := by
    obtain ⟨t, ht, rfl, hnext⟩ := h
    simp only [Locker.sealing, allTransitions, allTransitionsIn, List.append_nil, List.mem_cons,
      List.not_mem_nil, or_false] at ht
    rcases ht with rfl | rfl
    · cases hnext
      exact ⟨rfl, rfl⟩
    · cases hnext
  have hacyclic : Locker.sealing.Acyclic := by
    intro a h
    obtain ⟨b, hfirst, -⟩ := Relation.TransGen.head'_iff.1 h
    obtain ⟨c, -, hlast⟩ := Relation.TransGen.tail'_iff.1 h
    have hsame := (hleads hfirst).1.symm.trans (hleads hlast).2
    revert hsame
    decide
  have hobeys : Locker.sealing.Obeys (·.isInvoke = false) :=
    Locker.sealing_obeys.mono fun _ => Op.isInvoke_of_allowed
  have hnames : Locker.sealing.actionNames.length ≤ 2 := by decide +kernel
  exact ⟨hacyclic, hobeys, hnames, rfl,
    invoke_terminates (w := w) hacyclic hobeys hnames "lock" none .empty (.fresh Locker.field) rfl⟩

end Process

end Workflow
