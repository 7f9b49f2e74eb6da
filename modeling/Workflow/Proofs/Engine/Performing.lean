import Mathlib.Logic.Relation
import Workflow.Proofs.Engine.Deferring
import Workflow.Proofs.Rejections

/-!
# Performing commands

Commands are called one after the other, up to the first that fails. Where the stores do not fail, each of them
comes to its end, and what it does to the world are writes to its entity, notes, and what it does with the lock of
its field if it may.
-/

namespace Workflow

/-! ## Deeds -/

/-- Operations of a command's own, those on the lock only if that is allowed. -/
def Op.Works (locking : Prop) : Op → Prop
  | removeEntity | invoke .. => False
  | lock | unlock => locking
  | _ => True

/-- What an operation of a command on the field `k` does to the world, if it does anything. -/
inductive World.Deed (engine : Engine) (k : StateKey) (locking : Prop) (w : World) : World → Prop
  | wrote (field : String) (value : Json) :
    Deed engine k locking w (w.write (w.entities.assign (k.beside field) value) (k.beside field) value)
  | noted (note : Note) : Deed engine k locking w (w.record (.note note))
  | failed (call : StoreCall) (e : EngineError) : Deed engine k locking w (w.record (.failed call e))
  | locked (h : locking) :
    Deed engine k locking w (w.lock (k.lockKey engine.config.lockPrefix) engine.config.lockTtl)
  | unlocked (h : locking) : Deed engine k locking w (w.unlock (k.lockKey engine.config.lockPrefix))

/-- What a command does to the world from its call to its end. -/
abbrev World.Deeds (engine : Engine) (k : StateKey) (locking : Prop) : World → World → Prop :=
  Relation.ReflTransGen (World.Deed engine k locking)

namespace World

variable {engine : Engine} {k : StateKey} {locking : Prop} {w w' : World}

theorem Deed.sound (h : Deed engine k locking w w') (hw : w.Sound k) : w'.Sound k := by
  cases h with
  | wrote field value => exact ⟨hw.faults, (EntityStore.isSome_find?_assign ..).trans hw.entity⟩
  | noted note => exact ⟨hw.faults, hw.entity⟩
  | failed call e => exact ⟨hw.faults, hw.entity⟩
  | locked h => exact ⟨hw.faults, hw.entity⟩
  | unlocked h => exact ⟨hw.faults, hw.entity⟩

theorem answered_deeds {α : Type} (w : World) (call : StoreCall) (r : Except EngineError α) :
    Deeds engine k locking w (w.answered call r) := by
  cases r with
  | ok a => exact .refl
  | error e => exact .single (.failed call e)

/-- What every deed keeps is kept. -/
theorem Deeds.keep {J : World → Prop} (hdeed : ∀ w w', Deed engine k locking w w' → J w → J w')
    (h : Deeds engine k locking w w') (hw : J w) : J w' := by
  induction h with
  | refl => exact hw
  | tail _ hlast ih => exact hdeed _ _ hlast ih

theorem Deeds.sound (h : Deeds engine k locking w w') (hw : w.Sound k) : w'.Sound k :=
  h.keep (fun _ _ => Deed.sound) hw

end World

/-! ## Operations -/

namespace CommandM

variable {α β : Type}

/-- What a computation gives, and the context, the view and the world that it leaves. -/
def outcome (x : CommandM α) (c : Context) (v : View) (w : World) : Option ((α × Context) × View) × World :=
  EngineM.outcome ((x.run c).run v) w

theorem outcome_bind_some {x : CommandM α} {f : α → CommandM β} {a : α} {c c' : Context} {v v' : View} {w w' : World}
    (h : x.outcome c v w = (some ((a, c'), v'), w')) : (x >>= f).outcome c v w = (f a).outcome c' v' w' :=
  EngineM.outcome_bind_some (m := (x.run c).run v) (f := fun p => ((f p.1.1).run p.1.2).run p.2) h

theorem outcome_bind_none {x : CommandM α} {f : α → CommandM β} {c : Context} {v : View} {w w' : World}
    (h : x.outcome c v w = (none, w')) : (x >>= f).outcome c v w = (none, w') :=
  EngineM.outcome_bind_none (m := (x.run c).run v) (f := fun p => ((f p.1.1).run p.1.2).run p.2) h

theorem outcome_ofView {x : ViewM α} {r : Except EngineError α} {v v' : View} {w w' : World}
    (h : x.outcome v w = (some (r, v'), w')) (c : Context) :
    (liftM (x.run : FieldM _) : CommandM _).outcome c v w = (some ((r, c), v'), w') :=
  EngineM.outcome_bind_some (m := x.run.run v) (f := fun p => pure ((p.1, c), p.2)) h

theorem outcome_ofEngine {x : EngineM α} {a : α} {w w' : World} (h : x.outcome w = (some a, w')) (c : Context)
    (v : View) : (liftM x : CommandM α).outcome c v w = (some ((a, c), v), w') :=
  have hfield : EngineM.outcome ((liftM x : FieldM α).run v) w = (some (a, v), w') :=
    EngineM.outcome_bind_some (m := x) (f := fun a => pure (a, v)) h
  EngineM.outcome_bind_some (m := (liftM x : FieldM α).run v) (f := fun p => pure ((p.1, c), p.2)) hfield

end CommandM

/-! ## The journal -/

/-- Tells that a transition was started, or that one that might have been was not. -/
def Entry.isSequel : Entry → Bool
  | started _ => true
  | emitted ⟨_, _, .chainSkipped ..⟩ => true
  | _ => false

namespace World

/-- The calls of commands, the earliest first. -/
def calls (w : World) : List Moment :=
  (w.journal.filter (·.entry.isCommand)).reverse

/-- Since an earlier world no transition was started or skipped. -/
def Unchained (earlier w : World) : Prop :=
  ∃ new, w.journal = new ++ earlier.journal ∧ ∀ m ∈ new, m.entry.isSequel = false

variable {engine : Engine} {k : StateKey} {locking : Prop} {w₀ w w' : World}

theorem calls_record (w : World) (e : Entry) :
    (w.record e).calls = w.calls ++ if e.isCommand then [⟨e, w.toScene⟩] else [] := by
  cases h : e.isCommand <;> simp [calls, record, h]

theorem Unchained.refl (w : World) : w.Unchained w :=
  ⟨[], rfl, List.forall_mem_nil _⟩

theorem Unchained.noted {m : Moment} (h : w₀.Unchained w) (hjournal : w'.journal = m :: w.journal)
    (hm : m.entry.isSequel = false) : w₀.Unchained w' := by
  obtain ⟨new, hnew, hall⟩ := h
  exact ⟨m :: new, by rw [hjournal, hnew, List.cons_append], List.forall_mem_cons.2 ⟨hm, hall⟩⟩

theorem Unchained.trans (h : w₀.Unchained w) (h' : w.Unchained w') : w₀.Unchained w' := by
  obtain ⟨new, hnew, hall⟩ := h
  obtain ⟨new', hnew', hall'⟩ := h'
  refine ⟨new' ++ new, by rw [hnew', hnew, List.append_assoc], fun m hm => ?_⟩
  exact (List.mem_append.1 hm).elim (hall' m) (hall m)

theorem Deed.calls (h : Deed engine k locking w w') : w'.calls = w.calls := by
  cases h <;> rfl

theorem Deed.unchained (h : Deed engine k locking w w') (hw : w₀.Unchained w) : w₀.Unchained w' := by
  cases h <;> exact hw.noted rfl rfl

/-- Without leave to touch locks, none is touched. -/
theorem Deed.locks (h : Deed engine k False w w') : w'.locks = w.locks := by
  cases h with
  | wrote field value => rfl
  | noted note => rfl
  | failed call e => rfl
  | locked h | unlocked h => exact h.elim

end World

variable {engine : Engine} {start : Start} {locking : Prop}

namespace Op

variable (engine start) in
/-- An operation has an answer, and on the way to it at most one thing was done. -/
theorem run_does {op : Op} (hop : op.Works locking) (c : Context) {v : View} {w : World} (hw : w.Sound v.key) :
    ∃ r c' v' w', (op.run engine start).outcome c v w = (some ((r, c'), v'), w') ∧ v'.key = v.key ∧
      w.Deeds engine v.key locking w' := by
  obtain ⟨e, he⟩ := Option.isSome_iff_exists.1 hw.entity
  have hserves := World.serves_of_nil hw.faults
  have hview {α : Type} {x : ViewM α} {r : Except EngineError α} {v' : View} {w' : World}
      (h : x.outcome v w = (some (r, v'), w')) (hkey : v'.key = v.key) (hdeeds : w.Deeds engine v.key locking w') :
      ∃ r c' v' w', (liftM (x.run : FieldM _) : CommandM _).outcome c v w = (some ((r, c'), v'), w') ∧
        v'.key = v.key ∧ w.Deeds engine v.key locking w' :=
    ⟨r, c, v', w', CommandM.outcome_ofView h c, hkey, hdeeds⟩
  cases op with
  | key => exact ⟨v.key, c, v, w, rfl, rfl, .refl⟩
  | context => exact ⟨c, c, v, w, rfl, rfl, .refl⟩
  | entity => exact hview (ViewM.entity_outcome hserves he) rfl .refl
  | storedState => exact hview (ViewM.storedState_outcome hserves) rfl (World.answered_deeds ..)
  | memoizedState => exact hview (ViewM.memoizedState_outcome hserves he) rfl .refl
  | refresh => exact hview (ViewM.refresh_outcome hserves he) rfl .refl
  | setField field value => exact hview (ViewM.setField_outcome hserves he field value) rfl (.single (.wrote ..))
  | isLocked => exact hview (ViewM.isLocked_outcome engine hw.faults) rfl .refl
  | insert name value => exact ⟨(), c.insert name value, v, w, rfl, rfl, .refl⟩
  | writeBehind field value =>
      have hset := CallM.setField_outcome (v.key.beside field) hserves he value
      have hview : (getThe View : CommandM View).outcome c v w = (some ((v, c), v), w) := rfl
      refine ⟨.ok (), c, v, _, ?_, rfl, .single (.wrote field value)⟩
      exact (CommandM.outcome_bind_some hview).trans (CommandM.outcome_ofEngine hset c v)
  | write note => exact ⟨(), c, v, _, rfl, rfl, .single (.noted note)⟩
  | lock =>
      cases hheld : w.locks.isHeld (v.key.lockKey engine.config.lockPrefix) with
      | true => exact hview (ViewM.lock_outcome_held engine hw.faults hheld) rfl .refl
      | false => exact hview (ViewM.lock_outcome engine hw.faults hheld) rfl (.single (.locked hop))
  | unlock => exact hview (ViewM.unlock_outcome engine hw.faults) rfl (.single (.unlocked hop))
  | removeEntity | invoke => exact hop.elim

end Op

variable (engine start) in
theorem Program.run_does {α : Type} (p : Program α) (hp : p.All (Op.Works locking)) (c : Context) {v : View} {w : World}
    (hw : w.Sound v.key) : ∃ r c' v' w', (p.run engine start).outcome c v w = (some ((r, c'), v'), w') ∧
      v'.key = v.key ∧ w.Deeds engine v.key locking w' := by
  induction p generalizing c v w with
  | pure a => exact ⟨a, c, v, w, rfl, rfl, .refl⟩
  | call op next ih =>
      obtain ⟨r, c₁, v₁, w₁, hop, hkey, hdeeds⟩ := op.run_does engine start hp.1 c hw
      obtain ⟨r', c₂, v₂, w₂, hnext, hkey', hdeeds'⟩ := ih r (hp.2 r) c₁ (hkey ▸ hdeeds.sound hw)
      refine ⟨r', c₂, v₂, w₂, (CommandM.outcome_bind_some hop).trans hnext, hkey'.trans hkey, ?_⟩
      exact hdeeds.trans (hkey ▸ hdeeds')

/-! ## Commands in their order -/

/-- What a command finds. -/
structure Stage where
  context : Context
  view : View
  world : World

/-- The command is run for this field, and no call of it is going to fail. -/
structure Stage.On (k : StateKey) (s : Stage) : Prop where
  key : s.view.key = k
  sound : s.world.Sound k

/-- A call of a command. -/
structure Turn where
  command : Command
  stage : Stage

namespace Turn

/-- The entry of the call, and what is stored and locked at that time. -/
def moment (turn : Turn) : Moment :=
  ⟨.command turn.command.name turn.stage.view.key turn.stage.context, turn.stage.world.toScene⟩

/-- The world in which the command has been called. -/
def world (turn : Turn) : World :=
  turn.stage.world.record turn.moment.entry

variable (engine start) in
/-- How the called command ends, and what it leaves. -/
def Ends (turn : Turn) (result : Except String Unit) (left : Stage) : Prop :=
  (turn.command.body.run engine start).outcome turn.stage.context turn.stage.view turn.world =
    (some ((result, left.context), left.view), left.world)

theorem world_calls (turn : Turn) : turn.world.calls = turn.stage.world.calls ++ [turn.moment] :=
  World.calls_record ..

variable {k : StateKey} (turn : Turn)
  (hturn : turn.command.body.All (Op.Works locking)) (hs : turn.stage.On k)

include hturn hs

variable (engine start) in
theorem ends : ∃ result left, turn.Ends engine start result left := by
  have hsound : turn.world.Sound turn.stage.view.key := hs.key ▸ ⟨hs.sound.faults, hs.sound.entity⟩
  obtain ⟨r, c, v, w, hrun, -, -⟩ := turn.command.body.run_does engine start hturn turn.stage.context hsound
  exact ⟨r, ⟨c, v, w⟩, hrun⟩

variable {turn} in
theorem Ends.does {result : Except String Unit} {left : Stage} (h : turn.Ends engine start result left) :
    left.On k ∧ turn.world.Deeds engine k locking left.world := by
  have hsound : turn.world.Sound turn.stage.view.key := hs.key ▸ ⟨hs.sound.faults, hs.sound.entity⟩
  obtain ⟨r, c, v, w, hrun, hkey, hdeeds⟩ := turn.command.body.run_does engine start hturn turn.stage.context hsound
  cases h.symm.trans hrun
  rw [hs.key] at hkey hdeeds hsound
  exact ⟨⟨hkey, hdeeds.sound hsound⟩, hdeeds⟩

end Turn

variable (engine start) in
/-- Commands are called in their order, each on what the one before has left, up to the first that fails. -/
inductive Performs : List Command → Stage → List Turn → Option CommandFailure → Stage → Prop
  | done (s : Stage) : Performs [] s [] none s
  | failed {c : Command} {cs : List Command} {s s' : Stage} {message : String}
    (h : Turn.Ends engine start ⟨c, s⟩ (.error message) s') :
    Performs (c :: cs) s [⟨c, s⟩] (some ⟨c.name, message⟩) s'
  | passed {c : Command} {cs : List Command} {s s' s'' : Stage} {turns : List Turn} {failure : Option CommandFailure}
    (h : Turn.Ends engine start ⟨c, s⟩ (.ok ()) s') (hrest : Performs cs s' turns failure s'') :
    Performs (c :: cs) s (⟨c, s⟩ :: turns) failure s''

namespace Performs

variable {k : StateKey} {cs : List Command} {s s' : Stage} {turns : List Turn} {failure : Option CommandFailure}

/-- What calls and deeds keep is kept, from the first call on. -/
theorem keep {J : World → Prop} (hcalled : ∀ name c w, J w → J (w.record (.command name k c)))
    (hdeed : ∀ w w', World.Deed engine k locking w w' → J w → J w') (h : Performs engine start cs s turns failure s')
    (hcs : ∀ c ∈ cs, c.body.All (Op.Works locking)) (hs : s.On k) (hJ : J s.world) :
    (∀ turn ∈ turns, J turn.stage.world) ∧ s'.On k ∧ J s'.world := by
  have hturn {c : Command} {s s' : Stage} {result : Except String Unit}
      (h : Turn.Ends engine start ⟨c, s⟩ result s') (hc : c.body.All (Op.Works locking)) (hs : s.On k)
      (hJ : J s.world) : s'.On k ∧ J s'.world := by
    obtain ⟨hs', hdeeds⟩ := h.does hc hs
    have hJ' : J (s.world.record (.command c.name s.view.key s.context)) := hs.key ▸ hcalled c.name s.context _ hJ
    exact ⟨hs', hdeeds.keep hdeed hJ'⟩
  induction h with
  | done s => exact ⟨List.forall_mem_nil _, hs, hJ⟩
  | failed h => exact ⟨List.forall_mem_singleton.2 hJ, hturn h (hcs _ (List.mem_cons_self ..)) hs hJ⟩
  | passed h hrest ih =>
      obtain ⟨hs', hJ'⟩ := hturn h (hcs _ (List.mem_cons_self ..)) hs hJ
      obtain ⟨hturns, hend⟩ := ih (fun c hc => hcs c (List.mem_cons_of_mem _ hc)) hs' hJ'
      exact ⟨List.forall_mem_cons.2 ⟨hJ, hturns⟩, hend⟩

/-- The journal tells of these calls and of no others. -/
theorem calls (h : Performs engine start cs s turns failure s') (hcs : ∀ c ∈ cs, c.body.All (Op.Works locking))
    (hs : s.On k) : s'.world.calls = s.world.calls ++ turns.map Turn.moment := by
  have hturn {c : Command} {s s' : Stage} {result : Except String Unit}
      (h : Turn.Ends engine start ⟨c, s⟩ result s') (hc : c.body.All (Op.Works locking)) (hs : s.On k) :
      s'.On k ∧ s'.world.calls = s.world.calls ++ [Turn.moment ⟨c, s⟩] := by
    obtain ⟨hs', hdeeds⟩ := h.does hc hs
    exact ⟨hs', hdeeds.keep (fun _ _ hdeed h => hdeed.calls.trans h) (Turn.world_calls _)⟩
  induction h with
  | done s => exact (List.append_nil _).symm
  | failed h => exact (hturn h (hcs _ (List.mem_cons_self ..)) hs).2
  | passed h hrest ih =>
      obtain ⟨hs', hcalls⟩ := hturn h (hcs _ (List.mem_cons_self ..)) hs
      rw [ih (fun c hc => hcs c (List.mem_cons_of_mem _ hc)) hs', hcalls, List.append_assoc]
      rfl

/-- Commands without leave to touch locks find them all as the first has found them. -/
theorem locks (h : Performs engine start cs s turns failure s') (hcs : ∀ c ∈ cs, c.body.All (Op.Works False))
    (hs : s.On k) : ∀ turn ∈ turns, turn.stage.world.locks = s.world.locks :=
  (h.keep (fun _ _ _ h => h) (fun _ _ hdeed h => hdeed.locks.trans h) hcs hs rfl).1

theorem on (h : Performs engine start cs s turns failure s') (hcs : ∀ c ∈ cs, c.body.All (Op.Works locking))
    (hs : s.On k) : s'.On k :=
  (h.keep (J := fun _ => True) (fun _ _ _ h => h) (fun _ _ _ h => h) hcs hs trivial).2.1

theorem unchained (h : Performs engine start cs s turns failure s') (hcs : ∀ c ∈ cs, c.body.All (Op.Works locking))
    (hs : s.On k) : s.world.Unchained s'.world :=
  (h.keep (fun _ _ _ h => h.noted rfl rfl) (fun _ _ => World.Deed.unchained) hcs hs (.refl _)).2.2

end Performs

variable (engine start) in
/-- Commands are performed where each of them comes to its end, from stages that all leave for the next. -/
theorem Command.runAll_performs_on {J : Stage → Prop} (cs : List Command)
    (hends : ∀ c ∈ cs, ∀ s, J s → ∃ r s', Turn.Ends engine start ⟨c, s⟩ r s' ∧ J s') (s : Stage) (hs : J s) :
    ∃ turns failure s', Performs engine start cs s turns failure s' ∧
      (Command.runAll engine start cs).outcome s.context s.view s.world =
        (some ((failure, s'.context), s'.view), s'.world) := by
  induction cs generalizing s with
  | nil => exact ⟨[], none, s, .done s, rfl⟩
  | cons c cs ih =>
      obtain ⟨r, s₁, hend, hs₁⟩ := hends c (List.mem_cons_self ..) s hs
      have hview : CommandM.outcome (getThe View) s.context s.view s.world =
          (some ((s.view, s.context), s.view), s.world) := rfl
      have hcontext : CommandM.outcome (getThe Context) s.context s.view s.world =
          (some ((s.context, s.context), s.view), s.world) := rfl
      have hcalled : CommandM.outcome (EngineM.record (.command c.name s.view.key s.context) : EngineM _)
          s.context s.view s.world = (some (((), s.context), s.view), Turn.world ⟨c, s⟩) := rfl
      rw [Command.runAll, CommandM.outcome_bind_some hview, CommandM.outcome_bind_some hcontext,
        CommandM.outcome_bind_some hcalled, CommandM.outcome_bind_some hend]
      cases r with
      | error m => exact ⟨_, _, s₁, .failed hend, rfl⟩
      | ok _ =>
          obtain ⟨turns, failure, s', hperforms, hrest⟩ :=
            ih (fun c hc => hends c (List.mem_cons_of_mem _ hc)) s₁ hs₁
          exact ⟨_, failure, s', .passed hend hperforms, hrest⟩

end Workflow
