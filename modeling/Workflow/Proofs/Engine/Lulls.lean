import Workflow.Proofs.Engine.Actions
import Workflow.Proofs.Engine.Concluding

/-!
# Lulls

Between the calls of its commands a transition reads, writes, reports and deals with its lock, and so do commands
that start nothing. Meanwhile no command is called, no transition is started and no job is put up, whatever the
stores make of it.
-/

namespace Workflow

/-! ## Ledgers -/

/-- What a run has come to: the commands that were called and the transitions that were started, the earliest first,
and the jobs that wait. -/
structure Ledger where
  calls : List Moment
  transitions : List Transition
  pending : List Job
  starts : Nat

/-- Besides, these commands were called. -/
def Ledger.call (l : Ledger) (moments : List Moment) : Ledger :=
  { l with calls := l.calls ++ moments }

theorem Ledger.call_call (l : Ledger) (moments moments' : List Moment) :
    (l.call moments).call moments' = l.call (moments ++ moments') := by
  simp [call]

namespace World

/-- The transitions that were started, the earliest first. -/
def transitions (w : World) : List Transition :=
  (w.journal.filterMap (·.entry.starts?)).reverse

def ledger (w : World) : Ledger :=
  ⟨w.calls, w.transitions, w.pending, w.starts⟩

theorem ledger_record {e : Entry} (w : World) (hcommand : e.isCommand = false) (hstarts : e.starts? = none) :
    (w.record e).ledger = w.ledger := by
  simp [ledger, calls, transitions, record, hcommand, hstarts, Scene.pending]

theorem ledger_started (w : World) (k : StateKey) (s : Started) : ((w.takeOff k).record (.started s)).ledger =
    ⟨w.calls, w.transitions ++ [s.transition], w.pending, w.starts + 1⟩ := by
  simp [ledger, calls, transitions, record, takeOff, Entry.starts?, Entry.isCommand, Scene.pending]

end World

theorem Turn.world_ledger (turn : Turn) : turn.world.ledger = turn.stage.world.ledger.call [turn.moment] := by
  rw [World.ledger, turn.world_calls]
  rfl

/-! ## Computations -/

theorem CallM.setField_lulls (k : StateKey) (value : Json) (l : Ledger) : Meets (fun w => w.ledger = l)
    (setField k value) (fun _ w => w.ledger = l) ⟨fun _ w => w.ledger = l, fun _ => False⟩ := by
  refine .bind (M := fun _ w => w.ledger = l) ?_ fun entities => modify_meets fun _ h => h
  exact ofEntities_meets (fun _ _ h _ => h) (fun _ _ h _ => h) fun _ _ h _ => h

/-- A computation ends, perhaps with an error, and leaves the ledger as it was. -/
def ViewM.Lulls {α : Type} (x : ViewM α) : Prop :=
  ∀ l, Meets (fun s => s.2.ledger = l) x (fun _ s => s.2.ledger = l) ⟨fun _ s => s.2.ledger = l, fun _ => False⟩

namespace ViewM

variable {α β : Type}

namespace Lulls

theorem pure (a : α) : Lulls (pure a : ViewM α) :=
  fun _ => .pure fun _ h => h

theorem bind {x : ViewM α} {f : α → ViewM β} (hx : x.Lulls) (hf : ∀ a, (f a).Lulls) : (x >>= f).Lulls :=
  fun l => .bind (hx l) fun a => hf a l

theorem map {x : ViewM α} (hx : x.Lulls) (f : α → β) : (f <$> x).Lulls :=
  fun l => .map (hx l) fun _ _ h => h

theorem tryCatch {x : ViewM α} {handle : EngineError → ViewM α} (hx : x.Lulls) (hhandle : ∀ e, (handle e).Lulls) :
    (tryCatch x handle).Lulls :=
  fun l => .tryCatch (hx l) fun e => hhandle e l

/-- What is known from the ledger is kept. -/
theorem keeps {x : ViewM α} (hx : x.Lulls) {J : Ledger → Prop} {C : World → Prop} :
    Meets (fun s => J s.2.ledger) x (fun _ s => J s.2.ledger) ⟨fun _ s => J s.2.ledger, C⟩ :=
  .point fun s hs => by
    have hkept (s' : View × World) (h : s'.2.ledger = s.2.ledger) : J s'.2.ledger := h ▸ hs
    exact (hx s.2.ledger).mono (fun _ h => congrArg (·.2.ledger) h) (fun _ => hkept) (fun _ => hkept)
      fun _ => False.elim

theorem ofCall {x : CallM α}
    (hx : ∀ l, Meets (fun w => w.ledger = l) x (fun _ w => w.ledger = l) ⟨fun _ w => w.ledger = l, fun _ => False⟩) :
    (ofCall x).Lulls :=
  fun l => ofCall_meets fun _ => hx l

theorem modify {f : World → World} (h : ∀ w, (f w).ledger = w.ledger) : (ofEngine (modify f)).Lulls :=
  fun _ => ofEngine_meets fun _ => EngineM.modify_meets fun w hw => (h w).trans hw

theorem reading (J : Ledger → Prop) : Reading fun s => J s.2.ledger where
  struck _ h := h
  asked {_ w e} he h := by
    have hentry : e.isCommand = false ∧ e.starts? = none := by
      cases e <;> first | exact ⟨rfl, rfl⟩ | cases he
    exact (w.ledger_record hentry.1 hentry.2).symm ▸ h
  remembered _ _ h := h

theorem takes {l : Ledger} {C : World → Prop} :
    (Exits.mk (fun _ s => s.2.ledger = l) C).Takes fun s => s.2.ledger = l :=
  fun _ _ _ _ _ h _ => h

end Lulls

variable (engine : Engine)

theorem key_lulls : key.Lulls :=
  .bind (fun _ => .liftExcept fun _ => Worldly.pure (m := EngineM) fun _ h => h) fun v => .pure v.key

theorem refresh_lulls : refresh.Lulls :=
  fun _ => refresh_meets Lulls.takes fun _ _ _ h _ => h

theorem entity_lulls : entity.Lulls :=
  fun l => (entity_meets (Lulls.reading (· = l)) Lulls.takes).post fun _ _ h => h.1

theorem storedState_lulls : storedState.Lulls :=
  fun l => storedState_meets (Lulls.reading (· = l)) fun _ _ h => h

theorem memoizedState_lulls : memoizedState.Lulls :=
  fun l => (memoizedState_meets (Lulls.reading (· = l)) Lulls.takes fun _ _ _ h _ _ => h).post fun _ _ h => h.1

theorem isLocked_lulls : (isLocked engine).Lulls :=
  fun l => isLocked_meets (Lulls.reading (· = l)) engine Lulls.takes

theorem setField_lulls (field : String) (value : Json) : (setField field value).Lulls :=
  key_lulls.bind fun _ => .bind (.ofCall (CallM.setField_lulls _ value)) fun _ =>
    refresh_lulls.bind fun _ => .pure ()

theorem setState_lulls (value : String) : (setState value).Lulls :=
  key_lulls.bind fun _ => setField_lulls _ _

theorem lock_lulls : (lock engine).Lulls :=
  .bind (key_lulls.bind fun _ => .pure _) fun _ => .ofCall fun _ =>
    CallM.acquire_meets (fun _ _ h _ => h) (fun _ h _ => h) fun _ h _ => h

theorem unlock_lulls : (unlock engine).Lulls :=
  .bind (key_lulls.bind fun _ => .pure _) fun _ => .ofCall fun _ =>
    CallM.release_meets (fun _ _ h _ => h) fun _ h => h

end ViewM

namespace Transition

variable (t : Transition) (engine : Engine)

theorem report_lulls (kind : EventKind) : (t.report kind).Lulls :=
  ViewM.key_lulls.bind fun _ => .modify fun _ => rfl

theorem writeState_lulls (value : String) (phase : Phase) : (t.writeState value phase).Lulls :=
  .bind (.tryCatch (ViewM.memoizedState_lulls.map some) fun _ => .pure none) fun _ =>
    (ViewM.setState_lulls value).bind fun _ => t.report_lulls _

theorem enter_lulls : t.enter.Lulls := by
  unfold enter
  split
  · exact .pure none
  · exact ViewM.memoizedState_lulls.bind fun _ => (t.writeState_lulls _ _).bind fun _ => .pure _

theorem release_lulls (number : Option Nat) : (t.release engine number).Lulls := by
  have hrest : (do ViewM.unlock engine; t.report .unlocked : ViewM Unit).Lulls :=
    (ViewM.unlock_lulls engine).bind fun _ => t.report_lulls _
  unfold release
  split
  · exact ViewM.key_lulls.bind fun _ => .bind (.modify fun _ => rfl) fun _ => hrest
  · exact hrest

theorem conclude_lulls (value : Option String) (phase : Phase) (kind : EventKind) (number : Option Nat) :
    (t.conclude engine value phase kind number).Lulls := by
  have hrest : (do t.release engine number; t.report kind : ViewM Unit).Lulls :=
    (t.release_lulls engine number).bind fun _ => t.report_lulls _
  unfold conclude
  split
  · exact (t.writeState_lulls _ _).bind fun _ => hrest
  · exact hrest

theorem abort_lulls (previous : Option String) (reason : String) (number : Option Nat) :
    (t.abort engine previous reason number).Lulls :=
  t.conclude_lulls engine _ _ _ number

end Transition

/-! ## Commands that start nothing -/

variable {engine : Engine} {start : Start} {α : Type}

section

variable (start' : Start)

theorem Op.run_anyhow {op : Op} (hop : op.isInvoke = false) : op.run engine start = op.run engine start' := by
  cases op with
  | invoke => cases hop
  | _ => rfl

theorem Program.run_anyhow {p : Program α} (hp : p.All (·.isInvoke = false)) :
    p.run engine start = p.run engine start' := by
  induction p with
  | pure a => rfl
  | call op next ih =>
      rw [run, run, Op.run_anyhow start' hp.1]
      exact bind_congr fun reply => ih reply (hp.2 reply)

theorem Command.runAll_anyhow {cs : List Command} (hcs : ∀ c ∈ cs, c.body.All (·.isInvoke = false)) :
    Command.runAll engine start cs = Command.runAll engine start' cs := by
  induction cs with
  | nil => rfl
  | cons c cs ih =>
      rw [runAll, runAll, Program.run_anyhow start' (hcs c (List.mem_cons_self ..)),
        ih fun c hc => hcs c (List.mem_cons_of_mem _ hc)]

end

theorem Op.run_lulls (op : Op) (hop : op.isInvoke = false) (l : Ledger) : Meets (fun s => s.2.ledger = l)
    (op.run engine start) (fun _ s => s.2.ledger = l) ⟨fun _ _ => False, fun _ => False⟩ := by
  have hview {α : Type} {x : ViewM α} (hx : x.Lulls) : Meets (fun s => s.2.ledger = l)
      (liftM (x.run : FieldM _) : CommandM _) (fun _ s => s.2.ledger = l) ⟨fun _ _ => False, fun _ => False⟩ :=
    .liftCommand (Meets.attempt (hx l))
  cases op with
  | key => exact .bind getView_meets fun _ => .pure fun _ h => h.1
  | context => exact fun c => Worldly.pure (m := FieldM) fun _ h => h
  | insert name value => exact fun c => Worldly.pure (m := FieldM) fun _ h => h
  | entity => exact hview ViewM.entity_lulls
  | storedState => exact hview ViewM.storedState_lulls
  | memoizedState => exact hview ViewM.memoizedState_lulls
  | refresh => exact hview ViewM.refresh_lulls
  | setField field value => exact hview (ViewM.setField_lulls field value)
  | lock => exact hview (ViewM.lock_lulls engine)
  | unlock => exact hview (ViewM.unlock_lulls engine)
  | isLocked => exact hview (ViewM.isLocked_lulls engine)
  | writeBehind field value =>
      refine .bind getView_meets fun v => ofEngine_meets fun v' => ?_
      exact Meets.attempt (m := EngineM) ((CallM.setField_lulls _ value l).pre fun _ h => h.1)
  | removeEntity =>
      exact .bind getView_meets fun v => ofEngine_meets fun v' => EngineM.modify_meets fun w h => h.1
  | write note => exact ofEngine_meets fun v => EngineM.modify_meets fun w h => h
  | invoke => cases hop

variable (engine start) in
/-- A program comes to its end. -/
theorem Program.run_lulls (p : Program α) (hp : p.All (·.isInvoke = false)) (c : Context) (v : View) (w : World) :
    ∃ a c' v' w', (p.run engine start).outcome c v w = (some ((a, c'), v'), w') ∧ w'.ledger = w.ledger := by
  have hmeets : Meets (fun s => s.2.ledger = w.ledger) (p.run engine start) (fun _ s => s.2.ledger = w.ledger)
      ⟨fun _ _ => False, fun _ => False⟩ :=
    p.run_meets (fun op hop => op.run_lulls hop w.ledger) hp
  obtain ⟨hends, hcut⟩ := hmeets c v w rfl
  cases ho : (p.run engine start).outcome c v w with
  | mk r w' =>
      cases r with
      | none => exact (hcut w' ho).elim
      | some r => exact ⟨r.1.1, r.1.2, r.2, w', rfl, hends r w' ho⟩

namespace Turn

variable (turn : Turn) (hturn : turn.command.body.All (·.isInvoke = false))

include hturn

variable (engine start) in
theorem ends_anyhow : ∃ result left, turn.Ends engine start result left := by
  obtain ⟨r, c, v, w, hrun, -⟩ :=
    turn.command.body.run_lulls engine start hturn turn.stage.context turn.stage.view turn.world
  exact ⟨r, ⟨c, v, w⟩, hrun⟩

variable {turn} in
theorem Ends.ledger {result : Except String Unit} {left : Stage} (h : turn.Ends engine start result left) :
    left.world.ledger = turn.stage.world.ledger.call [turn.moment] := by
  obtain ⟨r, c, v, w, hrun, hledger⟩ :=
    turn.command.body.run_lulls engine start hturn turn.stage.context turn.stage.view turn.world
  cases h.symm.trans hrun
  exact hledger.trans turn.world_ledger

end Turn

theorem Performs.ledger {cs : List Command} {s s' : Stage} {turns : List Turn} {failure : Option CommandFailure}
    (h : Performs engine start cs s turns failure s') (hcs : ∀ c ∈ cs, c.body.All (·.isInvoke = false)) :
    s'.world.ledger = s.world.ledger.call (turns.map Turn.moment) := by
  induction h with
  | done s => simp [Ledger.call]
  | failed h => exact h.ledger (hcs _ (List.mem_cons_self ..))
  | passed h hrest ih =>
      rw [ih fun c hc => hcs c (List.mem_cons_of_mem _ hc), h.ledger (hcs _ (List.mem_cons_self ..)),
        Ledger.call_call]
      rfl

variable (engine start) in
/-- Whatever commands start transitions with, they are performed alike, for they start none. -/
theorem Command.runAll_calls (start' : Start) (cs : List Command) (hcs : ∀ c ∈ cs, c.body.All (·.isInvoke = false))
    (s : Stage) : ∃ turns failure s', Performs engine start' cs s turns failure s' ∧
      (Command.runAll engine start cs).outcome s.context s.view s.world =
        (some ((failure, s'.context), s'.view), s'.world) ∧
      s'.world.ledger = s.world.ledger.call (turns.map Turn.moment) := by
  obtain ⟨turns, failure, s', hperforms, hrun⟩ := Command.runAll_performs_on engine start' (J := fun _ => True) cs
    (fun c hc s _ => by
      obtain ⟨r, s', hends⟩ := Turn.ends_anyhow engine start' ⟨c, s⟩ (hcs c hc)
      exact ⟨r, s', hends, trivial⟩) s trivial
  exact ⟨turns, failure, s', hperforms, Command.runAll_anyhow start' hcs ▸ hrun, hperforms.ledger hcs⟩

end Workflow
