import Workflow.Engine.Run
import Workflow.Proofs.Engine.Reading

/-!
# Writing and commands

What the writes of a transition, what it goes on with and the operations of its commands do to the state. Lemmas
about commands take the operations that a program may come to, and what is known of each of them.
-/

namespace Workflow

/-- Whether the event tells of a write of the state. -/
def EventKind.isChange : EventKind → Bool
  | stateChanged .. => true
  | _ => false

/-- What remains true when commands look. -/
structure Viewing (P : View × World → Prop) : Prop where
  struck : ∀ {v w} call, P (v, w) → P (v, w.struck call)
  remarked : ∀ {v w e}, e.isRemark = true → P (v, w) → P (v, w.record e)
  reread : ∀ {v w e}, w.entities.find? v.key.kind v.key.id = some e → P (v, w) → P (v.remember e, w)

/-- What remains true when a field of the view's own entity is written. -/
def Overwriting (P : View × World → Prop) (field : String) (value : Json) : Prop :=
  ∀ {v w entities}, w.entities.setField { v.key with field := field } value = .ok entities → P (v, w) →
    P (v, w.write entities { v.key with field := field } value)

/-- What remains true when commands look and write. -/
structure Acting (P : View × World → Prop) : Prop extends Viewing P where
  wrote : ∀ {v w entities key value}, w.entities.setField key value = .ok entities → P (v, w) →
    P (v, w.write entities key value)

/-- What remains true when events are emitted, too. -/
structure Writing (P : View × World → Prop) : Prop extends Acting P where
  emitted : ∀ {v w} e, P (v, w) → P (v, w.emit e)

theorem Viewing.reading {P : View × World → Prop} (hP : Viewing P) : Reading P where
  struck := hP.struck
  asked he := hP.remarked (Entry.isRemark_of_isQuestion he)
  remembered _ := hP.reread

theorem Acting.reading {P : View × World → Prop} (hP : Acting P) : Reading P :=
  hP.toViewing.reading

theorem EntityStore.setField_error {s : EntityStore} {key : StateKey} {value : Json} {e : EngineError}
    (h : s.setField key value = .error e) : s.find? key.kind key.id = none ∧ e.isOfStore = true := by
  cases hfound : s.find? key.kind key.id with
  | none =>
      simp only [setField, fetch, hfound] at h
      cases h
      exact ⟨rfl, rfl⟩
  | some _ =>
      simp only [setField, fetch, hfound] at h
      cases h

variable {α : Type} {P : View × World → Prop} {X : Exits (View × World)}

theorem Meets.attempt {m : Type → Type} [Monad m] {S : Type} [Worldly m S] {P Q : S → Prop}
    {x : ExceptT EngineError m α} {C : World → Prop} (hx : Meets P x (fun _ => Q) ⟨fun _ => Q, C⟩) :
    Meets P x.run (fun _ => Q) (.only C) :=
  (hx.run fun _ h => h).post fun r _ h => by cases r <;> exact h

namespace ViewM

section

variable (hP : Viewing P)

include hP

theorem reread_meets (hX : X.Takes P) : Meets P refresh (fun _ => P) X :=
  refresh_meets hX fun _ _ _ h he => hP.struck .fetch (hP.reread he h)

variable {field : String} {value : Json} (hwrote : Overwriting P field value)

include hwrote

theorem writeField_meets (v : View) {X : Exits World}
    (hX : ∀ w e, e.isOfStore = true → P (v, w) → ¬ Healthy (v, w) → X.error e (w.failing .setField e)) :
    Meets (fun w => P (v, w)) (CallM.setField { v.key with field := field } value)
      (fun _ w => P (v, w)) X := by
  refine .bind (M := fun entities w =>
    P (v, w) ∧ w.entities.setField { v.key with field := field } value = .ok entities)
    (CallM.ofEntities_meets ?_ ?_ ?_) fun entities => ?_
  · exact fun w m h hw => hX w _ rfl h fun hs => hw hs.1
  · intro w e h hset
    obtain ⟨hmissing, he⟩ := EntityStore.setField_error hset
    refine hX w e he h fun hs => ?_
    have hfound := hs.2
    rw [hmissing] at hfound
    cases hfound
  · exact fun w entities h hset => ⟨hP.struck .setField h, hset⟩
  · exact CallM.modify_meets fun w h => hwrote h.2 h.1

theorem setField_meets (hX : X.Takes P) : Meets P (setField field value) (fun _ => P) X := by
  refine .bind (M := fun k s => P s ∧ s.1.key = k) ?_ fun k => ?_
  · exact .point fun s hs => (key_meets s).post fun _ _ h => by rw [h.1, h.2]; exact ⟨hs, rfl⟩
  refine .bind (M := fun _ => P) (ofCall_meets fun v => ?_) fun _ => ?_
  · refine (Meets.assume (P := fun w => P (v, w)) fun (hk : v.key = k) => ?_).pre fun w h => ⟨h.2, h.1⟩
    subst hk
    exact writeField_meets hP hwrote v fun w e he h hs => hX v w .setField e he h hs
  · exact .bind (reread_meets hP hX) fun _ => .pure fun _ h => h

end

theorem setState_meets (hP : Acting P) (hX : X.Takes P) (value : String) :
    Meets P (setState value) (fun _ => P) X := by
  refine .point fun s hs => .bindKnown (key_meets s) ?_
  exact (setField_meets hP.toViewing (fun hset => hP.wrote hset) hX).pre fun _ h => h ▸ hs

end ViewM

theorem ViewM.onFresh_meets {Q : α → View × World → Prop} {key : StateKey} {m : ViewM α}
    (hm : Meets P m Q X) :
    Meets (fun w => P (.fresh key, w)) (ViewM.onFresh key m) (fun r w => ∃ v, X.ends Q r (v, w))
      (.only X.cut) :=
  .bind (m := EngineM) (hm (View.fresh key)) fun p => .pure fun _ h => ⟨p.2, h⟩

namespace Transition

/-- Starts the one available transition of an action, or tells how many there are. -/
def proceed (engine : Engine) (start : Start) (t : Transition) (next : String) (context : Context)
    (root : Process) : ViewM Unit := do
  match ← root.candidates engine ⟨context.user, some next⟩ with
  | [u] => start u context.withoutFailure (some root)
  | us => t.report (.chainSkipped next us.length)

variable (t : Transition)

/-- What is gone on with runs on a view of its own, and an error of it is told and not passed on. -/
theorem chain_steps {engine : Engine} {start : Start} {next : String} {context : Context} {root : Process}
    {Q : World → Prop} {E : EngineError → View × World → Prop} (s : View × World)
    (hproceed : Meets (fun s' => s' = (.fresh s.1.key, s.2)) (t.proceed engine start next context root)
      (fun _ s' => Q s'.2) X)
    (htold : ∀ e s', X.error e s' → Q (s'.2.emit ⟨s.1.key, next, .continuationFailed e.message⟩)) :
    Meets (fun s' => s' = s) (t.chain engine start next context (some root)) (fun _ s' => s'.1 = s.1 ∧ Q s'.2)
      ⟨E, X.cut⟩ := by
  refine .bindKnown (ViewM.key_meets s) ?_
  refine .bind (M := fun r s' => s'.1 = s.1 ∧ ∃ v, X.ends (fun _ s' => Q s'.2) r (v, s'.2)) ?_ fun r => ?_
  · refine ViewM.ofEngine_meets fun v => .point fun w hw => ?_
    cases hw
    refine ((ViewM.onFresh_meets hproceed).pre ?_).post fun _ _ h => ⟨rfl, h⟩
    rintro _ rfl
    rfl
  · cases r with
    | ok _ => exact .pure fun _ ⟨hv, _, h⟩ => ⟨hv, h⟩
    | error e => exact ViewM.ofEngine_meets fun v => EngineM.modify_meets fun w ⟨hv, _, h⟩ => ⟨hv, htold e _ h⟩

theorem report_tells {Q : View × World → Prop} {kind : EventKind}
    (h : ∀ v w, P (v, w) → Q (v, w.emit ⟨v.key, t.action, kind⟩)) :
    Meets P (t.report kind) (fun _ => Q) X := by
  refine .point fun s hs => .bindKnown (ViewM.key_meets s) ?_
  refine ViewM.ofEngine_meets fun v => EngineM.modify_meets fun w hw => ?_
  cases hw
  exact h v w hs

/-- The state is written first, and the change told then. -/
theorem writeState_tells (hP : Acting P) (hX : X.Takes P) {Q : View × World → Prop} {value : String}
    {phase : Phase}
    (h : ∀ source v w, P (v, w) → Q (v, w.emit ⟨v.key, t.action, .stateChanged source value phase⟩)) :
    Meets P (t.writeState value phase) (fun _ => Q) X := by
  unfold writeState
  refine .bind (M := fun _ => P) ?_ fun source => ?_
  · refine .tryCatch (E := fun _ => P) (.map ?_ fun _ _ h => h) fun _ => .pure fun _ h => h
    refine (ViewM.memoizedState_meets hP.reading ?_ fun _ _ _ h _ _ => h).post fun _ _ h => h.1
    exact fun v w call e _ h _ => hP.reading.failing call e h
  · exact .bind (ViewM.setState_meets hP hX value) fun _ => t.report_tells (h source)

section

variable (hP : Writing P)

include hP

theorem report_meets (kind : EventKind) : Meets P (t.report kind) (fun _ => P) X :=
  t.report_tells fun _ _ h => hP.emitted _ h

theorem writeState_meets (hX : X.Takes P) (value : String) (phase : Phase) :
    Meets P (t.writeState value phase) (fun _ => P) X :=
  t.writeState_tells hP.toActing hX fun _ _ _ h => hP.emitted _ h

theorem enter_meets (hX : X.Takes P)
    (hE : ∀ e s, e.isOfStore = true → P s → s.1.memo.isSome → (¬ ∃ state, s.1.Recalls state) →
      X.error e s) :
    Meets P t.enter (fun _ => P) X := by
  unfold enter
  split
  · exact .pure fun _ h => h
  · refine .bind (M := fun _ => P) ?_ fun previous => ?_
    · exact (ViewM.memoizedState_meets hP.reading hX hE).post fun _ _ h => h.1
    · exact .bind (t.writeState_meets hP hX _ _) fun _ => .pure fun _ h => h

end

end Transition

theorem ViewM.getWorld_meets {X : Exits (View × World)} (s : View × World) :
    Meets (fun s' => s' = s) (getThe World : ViewM World) (fun w s' => w = s.2 ∧ s' = s) X :=
  .liftExcept <| .liftField (x := get) fun _ _ h =>
    ⟨fun _ _ ho => by cases ho; cases h; exact ⟨rfl, rfl⟩, nofun⟩

theorem EngineM.takeOff_meets {X : Exits World} (key : StateKey) (w : World) :
    Meets (fun w' => w' = w) (takeOff key) (fun n w' => n = w.starts ∧ w' = w.takeOff key) X := by
  refine .bind (m := EngineM) get_meets fun w' => .point fun _ h => ?_
  obtain ⟨rfl, rfl⟩ := h
  dsimp only
  refine .bind (m := EngineM) (M := fun _ w => w = World.takeOff w' key) ?_ ?_
  · exact modify_meets fun _ h => h ▸ rfl
  · exact fun _ => .pure fun _ h => ⟨rfl, h⟩

/-! ## Commands -/

/-- Every operation that the program may come to is one of these. -/
def Program.All (allowed : Op → Prop) {α : Type} : Program α → Prop
  | .pure _ => True
  | .call op next => allowed op ∧ ∀ reply, (next reply).All allowed

namespace Op

/-- Operations on the field, its entity and the context. -/
def isPlain : Op → Bool
  | lock | unlock | removeEntity | invoke .. => false
  | _ => true

variable {engine : Engine} {start : Start}

theorem getView_meets : Meets P (getThe View : CommandM View) (fun v s => P s ∧ s.1 = v) X :=
  .liftCommand fun _ => Worldly.pure (m := EngineM) fun _ h => ⟨h, rfl⟩

theorem ofEngine_meets {x : EngineM α} {Q : α → View × World → Prop}
    (hx : ∀ v, Meets (fun w => P (v, w)) x (fun a w => Q a (v, w)) (.only X.cut)) :
    Meets P (liftM (n := CommandM) x) Q X :=
  .liftCommand (.liftField hx)

/-- What the operation writes into a field of the entity. -/
def writes? : Op → Option (String × Json)
  | setField field value | writeBehind field value => some (field, value)
  | _ => none

theorem run_views (hP : Viewing P) (op : Op) (hop : op.isPlain = true)
    (hwrote : ∀ field value, op.writes? = some (field, value) → Overwriting P field value) :
    Meets P (op.run engine start) (fun _ => P) X := by
  have hback : (⟨fun _ => P, X.cut⟩ : Exits (View × World)).Back P := fun _ _ h => h
  have htakes := hback.takes hP.reading
  cases op with
  | key => exact .bind getView_meets fun _ => .pure fun _ h => h.1
  | context => exact fun c => Worldly.pure (m := FieldM) fun _ h => h
  | entity =>
      have h : Meets P ViewM.entity (fun _ => P) ⟨fun _ => P, X.cut⟩ :=
        (ViewM.entity_meets hP.reading htakes).post fun _ _ h => h.1
      exact .liftCommand h.attempt
  | storedState => exact .liftCommand (ViewM.storedState_meets hP.reading hback).attempt
  | memoizedState =>
      have h : Meets P ViewM.memoizedState (fun _ => P) ⟨fun _ => P, X.cut⟩ :=
        (ViewM.memoizedState_meets hP.reading htakes fun e s _ h _ _ => h).post fun _ _ h => h.1
      exact .liftCommand h.attempt
  | refresh => exact .liftCommand (ViewM.reread_meets hP htakes).attempt
  | setField field value =>
      exact .liftCommand (ViewM.setField_meets hP (hwrote field value rfl) htakes).attempt
  | isLocked => exact .liftCommand (ViewM.isLocked_meets hP.reading engine htakes).attempt
  | insert name value => exact fun c => Worldly.pure (m := FieldM) fun _ h => h
  | writeBehind field value =>
      refine .bind getView_meets fun v => ofEngine_meets fun v' => ?_
      refine Meets.attempt (m := EngineM) (.point fun w hw => ?_)
      obtain ⟨hw, rfl⟩ := hw
      refine (ViewM.writeField_meets hP (hwrote field value rfl) v' fun w e _ h _ => ?_).pre fun _ h => h ▸ hw
      exact hP.reading.failing .setField e h
  | write note => exact ofEngine_meets fun v => EngineM.modify_meets fun w h => hP.remarked rfl h
  | lock | unlock | removeEntity | invoke => cases hop

theorem run_meets (hP : Acting P) (op : Op) (hop : op.isPlain = true) :
    Meets P (op.run engine start) (fun _ => P) X :=
  run_views hP.toViewing op hop fun _ _ _ _ _ _ hset => hP.wrote hset

end Op

variable {engine : Engine} {start : Start} {allowed : Op → Prop}

theorem Program.run_meets
    (hop : ∀ op, allowed op → Meets P (op.run engine start) (fun _ => P) X) (p : Program α)
    (hp : p.All allowed) : Meets P (p.run engine start) (fun _ => P) X := by
  induction p with
  | pure a => exact .pure fun _ h => h
  | call op next ih => exact .bind (hop op hp.1) fun reply => ih reply (hp.2 reply)

theorem Command.runAll_meets (hP : Viewing P)
    (hop : ∀ op, allowed op → Meets P (op.run engine start) (fun _ => P) X) (cs : List Command)
    (hcs : ∀ c ∈ cs, c.body.All allowed) :
    Meets P (Command.runAll engine start cs) (fun _ => P) X := by
  induction cs with
  | nil => exact .pure fun _ h => h
  | cons c cs ih =>
      have hc := hcs c (List.mem_cons_self ..)
      unfold runAll
      refine .bind (M := fun _ => P) (Op.getView_meets.post fun _ _ h => h.1) fun v => ?_
      refine .bind (M := fun _ => P) ?_ fun context => ?_
      · exact fun c => Worldly.pure (m := FieldM) fun _ h => h
      refine .bind (M := fun _ => P) ?_ fun _ => ?_
      · exact Op.ofEngine_meets fun v => EngineM.modify_meets fun w h => hP.remarked rfl h
      refine .bind (Program.run_meets hop c.body hc) fun r => ?_
      split
      · exact ih fun c hc => hcs c (List.mem_cons_of_mem _ hc)
      · exact .pure fun _ h => h

/-! ## Contexts -/

/-- What an operation does to the context. -/
def Op.extend : Op → Context → Context
  | .insert name value, c => c.insert name value
  | _, c => c

namespace CommandM

theorem bind_meets {β : Type} {x : CommandM α} {f : α → CommandM β} {c : Context}
    {M : α × Context → View × World → Prop} {Q : β × Context → View × World → Prop}
    (hx : Meets (m := FieldM) P (x.run c) M X) (hf : ∀ a c, Meets (m := FieldM) (M (a, c)) ((f a).run c) Q X) :
    Meets (m := FieldM) P ((x >>= f).run c) Q X :=
  Meets.bind (m := FieldM) (f := fun r => (f r.1).run r.2) hx fun r => hf r.1 r.2

/-- Nothing happens to the context. -/
def Keeps (x : CommandM α) : Prop :=
  ∀ c, Meets (m := FieldM) (fun _ => True) (x.run c) (fun r _ => r.2 = c) .any

namespace Keeps

theorem pure (a : α) : Keeps (Pure.pure a : CommandM α) :=
  fun _ => .pure fun _ _ => rfl

theorem andThen {β : Type} {x : CommandM α} {f : α → CommandM β} (hx : Keeps x) {c : Context}
    {Q : β × Context → View × World → Prop}
    (hf : ∀ a, Meets (m := FieldM) (fun _ => True) ((f a).run c) Q .any) :
    Meets (m := FieldM) (fun _ => True) ((x >>= f).run c) Q .any :=
  bind_meets (hx c) fun a _ => .point fun _ h => by
    cases h
    exact (hf a).pre fun _ _ => trivial

theorem bind {β : Type} {x : CommandM α} {f : α → CommandM β} (hx : Keeps x) (hf : ∀ a, Keeps (f a)) :
    Keeps (x >>= f) :=
  fun c => hx.andThen fun a => hf a c

theorem lift (x : FieldM α) : Keeps (liftM x : CommandM α) := fun c =>
  Meets.bind (m := FieldM) (f := fun a => Pure.pure (a, c)) (.anyhow x) fun _ => .pure fun _ _ => rfl

theorem liftEngine (x : EngineM α) : Keeps (liftM x : CommandM α) :=
  lift (liftM x)

theorem getView : Keeps (getThe View) :=
  lift (getThe View)

theorem getContext : Keeps (getThe Context) :=
  fun _ => .pure fun _ _ => rfl

end Keeps

end CommandM

theorem Op.run_extends (op : Op) (c : Context) :
    Meets (m := FieldM) (fun _ => True) ((op.run engine start).run c) (fun r _ => r.2 = op.extend c) .any := by
  cases op with
  | insert name value => exact .pure fun _ _ => rfl
  | context => exact CommandM.Keeps.getContext c
  | key => exact CommandM.Keeps.getView.bind (fun v => .pure v.key) c
  | writeBehind field value => exact CommandM.Keeps.getView.bind (fun v => .liftEngine _) c
  | removeEntity => exact CommandM.Keeps.getView.bind (fun v => .liftEngine (modify _)) c
  | invoke process key action data => exact CommandM.Keeps.getContext.bind (fun _ => .liftEngine _) c
  | write note => exact CommandM.Keeps.liftEngine _ c
  | _ => exact CommandM.Keeps.lift _ c

section

variable {travels : Context → Prop} (hinsert : ∀ c name value, travels c → travels (c.insert name value))

include hinsert

theorem Program.run_travels (p : Program α) {c : Context} (hc : travels c) :
    Meets (m := FieldM) (fun _ => True) ((p.run engine start).run c) (fun r _ => travels r.2) .any := by
  induction p generalizing c with
  | pure a => exact .pure fun _ _ => hc
  | call op next ih =>
      refine CommandM.bind_meets (op.run_extends c) fun reply c' => .point fun _ hc' => ?_
      have htravels : travels (op.extend c) := by
        cases op with
        | insert name value => exact hinsert c name value hc
        | _ => exact hc
      obtain rfl : c' = op.extend c := hc'
      exact (ih reply htravels).pre fun _ _ => trivial

/-- What is inserted adds to the context that the commands are run with. -/
theorem Command.runAll_travels (cs : List Command) {c : Context} (hc : travels c) :
    Meets (m := FieldM) (fun _ => True) ((Command.runAll engine start cs).run c)
      (fun r _ => travels r.2) .any := by
  induction cs generalizing c with
  | nil => exact .pure fun _ _ => hc
  | cons command cs ih =>
      refine CommandM.Keeps.getView.andThen fun v => CommandM.Keeps.getContext.andThen fun context => ?_
      refine (CommandM.Keeps.liftEngine _).andThen fun _ => ?_
      refine CommandM.bind_meets (command.body.run_travels hinsert hc) fun r c' => .point fun _ hc' => ?_
      cases r with
      | ok _ => exact (ih hc').pre fun _ _ => trivial
      | error _ => exact .pure fun _ _ => hc'

end

namespace Transition

variable {Q R : View × World → Prop} {number : Option Nat} (t : Transition)

theorem runCallbacks_steps {callbacks : List Command}
    (hrun : Meets P (Command.runAll engine start callbacks) (fun _ => Q) X)
    (hreport : ∀ kind, kind.isChange = false → Meets Q (t.report kind) (fun _ => Q) X)
    (onFailurePath : Bool) (context : Context) :
    Meets P (t.runCallbacks engine start callbacks onFailurePath context) (fun _ => Q) X := by
  unfold runCallbacks
  refine .bind (M := fun _ => Q) (.liftExcept (hrun context)) fun r => ?_
  obtain ⟨failure, context⟩ := r
  cases failure with
  | none => exact .pure fun _ h => h
  | some f => exact .bind (hreport _ rfl) fun _ => .pure fun _ h => h

section

variable {callbacks : List Command} (hP : Writing P)
  (hop : ∀ op, allowed op → Meets P (op.run engine start) (fun _ => P) X)

include hP hop

theorem runCallbacks_meets (hcs : ∀ c ∈ callbacks, c.body.All allowed) (onFailurePath : Bool)
    (context : Context) :
    Meets P (t.runCallbacks engine start callbacks onFailurePath context) (fun _ => P) X :=
  t.runCallbacks_steps (Command.runAll_meets hP.toViewing hop callbacks hcs)
    (fun kind _ => t.report_meets hP kind) onFailurePath context

end

/-! ## Ends of transitions -/

section

variable (hrelease : Meets P (t.release engine number) (fun _ => Q) X)
  (hreport : ∀ kind, kind.isChange = false → Meets Q (t.report kind) (fun _ => Q) X)

include hrelease hreport

theorem abort_steps {previous : Option String} (reason : String)
    (hwrite : ∀ value, (t.failed <|> previous) = some value →
      Meets P (t.writeState value .failed) (fun _ => P) X) :
    Meets P (t.abort engine previous reason number) (fun _ => Q) X := by
  unfold abort
  extract_lets rest
  have hrest (u) : Meets P (rest u) (fun _ => Q) X := .bind hrelease fun _ => hreport _ rfl
  split
  · exact .bind (hwrite _ ‹_›) hrest
  · exact hrest ()

theorem succeed_steps {context : Context}
    (hwrite : ∀ value, t.target = some value → Meets P (t.writeState value .completed) (fun _ => P) X)
    (hcallbacks : Meets Q (t.runCallbacks engine start t.callbacks false context) (fun _ => R) X) :
    Meets P (t.succeed engine start context number) (fun _ => R) X := by
  unfold succeed
  extract_lets rest
  have hrest (u) : Meets P (rest u) (fun _ => R) X :=
    .bind hrelease fun _ => .bind (hreport _ rfl) fun _ => hcallbacks
  split
  · exact .bind (hwrite _ ‹_›) hrest
  · exact hrest ()

theorem fail_steps {failure : CommandFailure} {context : Context}
    (hwrite : ∀ value, t.failed = some value → Meets P (t.writeState value .failed) (fun _ => P) X)
    (hcallbacks : Meets Q
      (t.runCallbacks engine start t.failureCallbacks true (context.withFailure failure)) (fun _ => R) X) :
    Meets P (t.fail engine start failure context number) (fun _ => R) X := by
  unfold fail
  extract_lets rest
  have hrest (u) : Meets P (rest u) (fun _ => R) X :=
    .bind hrelease fun _ => .bind (hreport _ rfl) fun _ => .bind hcallbacks fun _ => .pure fun _ h => h
  split
  · exact .bind (hwrite _ ‹_›) hrest
  · exact hrest ()

end

section

variable (hP : Writing P) (hX : X.Takes P) (hrelease : Meets P (t.release engine number) (fun _ => Q) X)
  (hQ : Writing Q)

include hP hX hrelease hQ

theorem abort_meets (previous : Option String) (reason : String) :
    Meets P (t.abort engine previous reason number) (fun _ => Q) X :=
  t.abort_steps hrelease (fun kind _ => t.report_meets hQ kind) reason fun _ _ => t.writeState_meets hP hX _ _

variable (hop : ∀ op, allowed op → Meets Q (op.run engine start) (fun _ => Q) X)

include hop

theorem succeed_meets (hcs : ∀ c ∈ t.callbacks, c.body.All allowed) (context : Context) :
    Meets P (t.succeed engine start context number) (fun _ => Q) X :=
  t.succeed_steps hrelease (fun kind _ => t.report_meets hQ kind) (fun _ _ => t.writeState_meets hP hX _ _)
    (t.runCallbacks_meets hQ hop hcs false context)

theorem fail_meets (hcs : ∀ c ∈ t.failureCallbacks, c.body.All allowed) (failure : CommandFailure)
    (context : Context) :
    Meets P (t.fail engine start failure context number) (fun _ => Q) X :=
  t.fail_steps hrelease (fun kind _ => t.report_meets hQ kind) (fun _ _ => t.writeState_meets hP hX _ _)
    (t.runCallbacks_meets hQ hop hcs true _)

end

end Transition

end Workflow
