import Workflow.Engine.Run
import Workflow.Proofs.Engine.Custody

/-!
# Runs that do not tell worlds apart

Two computations are alike when from worlds that are alike they come to the same value, and to worlds that are
alike again. A likeness says which worlds those are: they may differ in the executor, at which only the
hand-over of a job looks, or in all that a run on one field has nothing to do with.
-/

namespace Workflow

/-- Worlds that runs on the fields `keys` do not tell apart, and the `numbers` that starts may get there. -/
structure Likeness (engine : Engine) where
  like : World → World → Prop
  keys : StateKey → Prop
  numbers : Nat → Nat → Prop
  struck : ∀ {w w'} call, like w w' →
    (Fault.strike call w.faults).1 = (Fault.strike call w'.faults).1 ∧ like (w.struck call) (w'.struck call)
  found : ∀ {k w w'}, keys k → like w w' →
    w.entities.find? k.kind k.id = w'.entities.find? k.kind k.id
  held : ∀ {k w w'}, keys k → like w w' →
    w.locks.isHeld (k.lockKey engine.config.lockPrefix) = w'.locks.isHeld (k.lockKey engine.config.lockPrefix)
  remarked : ∀ {w w' e}, e.isRemark = true → like w w' → like (w.record e) (w'.record e)
  told : ∀ {k w w'} action kind, keys k → like w w' →
    like (w.emit ⟨k, action, kind⟩) (w'.emit ⟨k, action, kind⟩)
  locked : ∀ {k w w'}, keys k → like w w' →
    like (w.lock (k.lockKey engine.config.lockPrefix) engine.config.lockTtl)
      (w'.lock (k.lockKey engine.config.lockPrefix) engine.config.lockTtl)
  unlocked : ∀ {k w w'}, keys k → like w w' →
    like (w.unlock (k.lockKey engine.config.lockPrefix)) (w'.unlock (k.lockKey engine.config.lockPrefix))
  started : ∀ {w w'} (s : Started), keys s.key → like w w' → numbers w.starts w'.starts ∧
    like ((w.takeOff s.key).record (.started { s with number := w.starts }))
      ((w'.takeOff s.key).record (.started { s with number := w'.starts }))
  landed : ∀ {k w w' n n'}, keys k → numbers n n' → like w w' → like (w.land ⟨n, k⟩) (w'.land ⟨n', k⟩)
  wrote : ∀ {k w w' field value entities entities'}, keys k →
    w.entities.setField { k with field := field } value = .ok entities →
    w'.entities.setField { k with field := field } value = .ok entities' → like w w' →
    like (w.write entities { k with field := field } value) (w'.write entities' { k with field := field } value)
  removed : ∀ {k w w'}, keys k → like w w' → like (w.remove k.kind k.id) (w'.remove k.kind k.id)

def World.under (w : World) (e : Executor) : World :=
  { w with executor := e }

/-- Worlds that differ in the executor, which is `e` in the other one. -/
def Likeness.under (engine : Engine) (e : Executor) : Likeness engine where
  like w w' := w' = w.under e
  keys _ := True
  numbers n n' := n = n'
  struck call h := by subst h; exact ⟨rfl, rfl⟩
  found _ h := by subst h; rfl
  held _ h := by subst h; rfl
  remarked _ h := by subst h; rfl
  told _ _ _ h := by subst h; rfl
  locked _ h := by subst h; rfl
  unlocked _ h := by subst h; rfl
  started _ _ h := by subst h; exact ⟨rfl, rfl⟩
  landed _ hn h := by subst hn h; rfl
  wrote _ hset hset' h := by
    subst h
    cases hset.symm.trans hset'
    rfl
  removed _ h := by subst h; rfl

theorem Likeness.under_numbers {engine : Engine} {e : Executor} (number : Option Nat) :
    Option.Rel (Likeness.under engine e).numbers number number := by
  cases number with
  | none => exact .none
  | some n => exact .some rfl

/-! ## Computations that are alike -/

/-- The same value, if there is one, which is one of `Q`, and worlds that are alike. -/
structure Likeness.Ends {engine : Engine} (I : Likeness engine) {α : Type} (Q : α → Prop)
    (o o' : Option α × World) : Prop where
  value : o.1 = o'.1
  good : ∀ a, o.1 = some a → Q a
  like : I.like o.2 o'.2

/-- From worlds that are alike both come to such ends. -/
def Likeness.Agree {engine : Engine} (I : Likeness engine) {α : Type} (Q : α → Prop) (x y : EngineM α) :
    Prop :=
  ∀ w w', I.like w w' → I.Ends Q (EngineM.outcome x w) (EngineM.outcome y w')

namespace Likeness.Agree

variable {engine : Engine} {I : Likeness engine} {α β : Type} {Q : α → Prop} {R : β → Prop}

theorem pure {a : α} (h : Q a) : I.Agree Q (pure a) (pure a) := by
  intro w w' hlike
  refine ⟨rfl, fun _ ha => ?_, hlike⟩
  cases ha
  exact h

theorem bind {x y : EngineM α} {f g : α → EngineM β} (hx : I.Agree Q x y)
    (hf : ∀ a, Q a → I.Agree R (f a) (g a)) : I.Agree R (x >>= f) (y >>= g) := by
  intro w w' hlike
  obtain ⟨hvalue, hQ, hlike⟩ := hx w w' hlike
  rw [EngineM.outcome_bind, EngineM.outcome_bind]
  cases ho : EngineM.outcome x w with
  | mk o w₁ =>
      cases ho' : EngineM.outcome y w' with
      | mk o' w₁' =>
          rw [ho, ho'] at hvalue hlike
          rw [ho] at hQ
          obtain rfl : o = o' := hvalue
          cases o with
          | none => exact ⟨rfl, nofun, hlike⟩
          | some a => exact hf a (hQ a rfl) w₁ w₁' hlike

end Likeness.Agree

/-- Monads whose computations are compared; a view is on one of the fields that they run on. -/
class Comparable (m : Type → Type) [Monad m] where
  alike {engine : Engine} (I : Likeness engine) {α : Type} (x y : m α) : Prop
  pure {engine : Engine} {I : Likeness engine} {α : Type} {a : α} : alike I (pure a) (pure a)
  bind {engine : Engine} {I : Likeness engine} {α β : Type} {x y : m α} {f g : α → m β} :
    alike I x y → (∀ a, alike I (f a) (g a)) → alike I (x >>= f) (y >>= g)

instance : Comparable EngineM where
  alike I _ x y := I.Agree (fun _ => True) x y
  pure := .pure trivial
  bind hx hf := .bind hx fun a _ => hf a

instance : Comparable FieldM where
  alike I α x y :=
    ∀ v : View, I.keys v.key → I.Agree (fun p : α × View => I.keys p.2.key) (x.run v) (y.run v)
  pure _ hv := .pure hv
  bind hx hf v hv := .bind (hx v hv) fun p hp => hf p.1 p.2 hp

instance : Comparable CommandM where
  alike I _ x y := ∀ c, Comparable.alike I (x.run c) (y.run c)
  pure _ := Comparable.pure
  bind hx hf c := Comparable.bind (hx c) fun p => hf p.1 p.2

instance {m : Type → Type} [Monad m] [Comparable m] : Comparable (ExceptT EngineError m) where
  alike I _ x y := Comparable.alike I x.run y.run
  pure := Comparable.pure (m := m)
  bind hx hf := Comparable.bind (m := m) hx fun r =>
    match r with
    | .ok a => hf a
    | .error _ => Comparable.pure (m := m)

/-- The same value from worlds that are alike, and worlds that are alike again. -/
abbrev Alike {engine : Engine} (I : Likeness engine) {m : Type → Type} [Monad m] [Comparable m] {α : Type}
    (x y : m α) : Prop :=
  Comparable.alike I x y

/-- The computation does not tell worlds apart. -/
abbrev Impartial {engine : Engine} (I : Likeness engine) {m : Type → Type} [Monad m] [Comparable m]
    {α : Type} (x : m α) : Prop :=
  Alike I x x

variable {engine : Engine} {I : Likeness engine}

namespace Alike

variable {m : Type → Type} [Monad m] [Comparable m] {α β : Type}

theorem pure {a : α} : Impartial I (pure a : m α) :=
  Comparable.pure

theorem bind {x y : m α} {f g : α → m β} (hx : Alike I x y) (hf : ∀ a, Alike I (f a) (g a)) :
    Alike I (x >>= f) (y >>= g) :=
  Comparable.bind hx hf

theorem map [LawfulMonad m] {x y : m α} {f : α → β} (hx : Alike I x y) :
    Alike I (f <$> x) (f <$> y) := by
  rw [map_eq_pure_bind, map_eq_pure_bind]
  exact .bind hx fun _ => .pure

theorem ofExcept {x y : m (Except EngineError α)} (hx : Alike I x y) :
    Alike I (ExceptT.mk x) (ExceptT.mk y) :=
  hx

theorem run {x y : ExceptT EngineError m α} (hx : Alike I x y) : Alike I x.run y.run :=
  hx

theorem throw {e : EngineError} : Impartial I (throw e : ExceptT EngineError m α) :=
  Comparable.pure (m := m)

theorem tryCatch {x y : ExceptT EngineError m α} {f g : EngineError → ExceptT EngineError m α}
    (hx : Alike I x y) (hf : ∀ e, Alike I (f e) (g e)) : Alike I (tryCatch x f) (tryCatch y g) :=
  Comparable.bind (m := m) hx fun r =>
    match r with
    | .ok _ => Comparable.pure (m := m)
    | .error e => hf e

theorem liftExcept [LawfulMonad m] {x y : m α} (hx : Alike I x y) :
    Alike I (liftM x : ExceptT EngineError m α) (liftM y) :=
  Alike.map (m := m) hx

theorem liftField {x y : EngineM α} (hx : Alike I x y) : Alike I (liftM x : FieldM α) (liftM y) :=
  fun v hv => .bind (f := fun a => Pure.pure (a, v)) hx fun _ _ => .pure hv

theorem liftCommand {x y : FieldM α} (hx : Alike I x y) : Alike I (liftM x : CommandM α) (liftM y) :=
  fun c => Comparable.bind (β := α × Context) (f := fun a => Pure.pure (a, c)) hx fun _ => Comparable.pure

theorem modify {f g : World → World} (hf : ∀ w w', I.like w w' → I.like (f w) (g w')) :
    Alike I (modify f : EngineM Unit) (modify g) :=
  fun w w' h => ⟨rfl, fun _ _ => trivial, hf w w' h⟩

theorem read {f g : World → CallM α} (hf : ∀ w w', I.like w w' →
    I.Ends (fun _ => True) (EngineM.outcome (f w).run w) (EngineM.outcome (g w').run w')) :
    Alike I (get >>= f) (get >>= g) :=
  hf

end Alike

/-! ## Store calls -/

namespace CallM

variable {α : Type} {k : StateKey}

theorem strike_impartial (call : StoreCall) : Impartial I (strike call) :=
  fun _ _ h => ⟨congrArg some (I.struck call h).1, fun _ _ => trivial, (I.struck call h).2⟩

theorem fail_impartial (call : StoreCall) (e : EngineError) : Impartial I (fail call e : CallM α) :=
  .bind (.liftExcept (.modify fun _ _ h => I.remarked rfl h)) fun _ => .throw

theorem ofEntities_impartial (call : StoreCall) {run : EntityStore → Except EngineError α}
    (hrun : ∀ w w', I.like w w' → run w.entities = run w'.entities) : Impartial I (ofEntities call run) := by
  refine .bind (.liftExcept (strike_impartial call)) fun r => ?_
  split
  · exact fail_impartial call _
  · refine .read fun w w' h => ?_
    rw [hrun w w' h]
    cases run w'.entities with
    | ok a => exact ⟨rfl, fun _ _ => trivial, h⟩
    | error e => exact fail_impartial call e w w' h

section

variable (hk : I.keys k)

include hk

theorem fetch_impartial : Impartial I (fetch k.kind k.id) :=
  ofEntities_impartial .fetch fun w w' h => by simp only [EntityStore.fetch, I.found hk h]

theorem getField_impartial : Impartial I (getField k) :=
  ofEntities_impartial .getField fun w w' h => EntityStore.getField_congr (by rw [I.found hk h])

theorem setField_impartial (field : String) (value : Json) :
    Impartial I (setField { k with field := field } value) := by
  unfold setField ofEntities
  rw [bind_assoc]
  refine .bind (.liftExcept (strike_impartial .setField)) fun r => ?_
  split
  · exact fun _ _ h => ⟨rfl, fun _ _ => trivial, I.remarked rfl h⟩
  · rw [bind_assoc]
    refine .read fun w w' h => ?_
    have hfound := I.found hk h
    cases he : w.entities.find? k.kind k.id with
    | none =>
        have hset := EntityStore.setField_of_none { k with field := field } he value
        have hset' := EntityStore.setField_of_none { k with field := field } (hfound ▸ he) value
        dsimp only
        rw [hset, hset']
        exact ⟨rfl, fun _ _ => trivial, I.remarked rfl h⟩
    | some e =>
        obtain ⟨entities, hset⟩ := EntityStore.setField_of_some { k with field := field } he value
        obtain ⟨entities', hset'⟩ :=
          EntityStore.setField_of_some { k with field := field } (hfound ▸ he) value
        dsimp only
        rw [hset, hset']
        exact ⟨rfl, fun _ _ => trivial, I.wrote hk hset hset' h⟩

theorem acquire_impartial :
    Impartial I (acquire (k.lockKey engine.config.lockPrefix) engine.config.lockTtl) := by
  refine .bind (.liftExcept (strike_impartial .acquire)) fun r => ?_
  split
  · exact fail_impartial .acquire _
  · exact .pure
  · refine .read fun w w' h => ?_
    simp only [LockStore.acquire_fst, I.held hk h]
    cases w'.locks.isHeld (k.lockKey engine.config.lockPrefix) with
    | true => exact ⟨rfl, fun _ _ => trivial, h⟩
    | false => exact ⟨rfl, fun _ _ => trivial, I.locked hk h⟩

theorem release_impartial : Impartial I (release (k.lockKey engine.config.lockPrefix)) := by
  refine .bind (.liftExcept (strike_impartial .release)) fun r => ?_
  split
  · exact fail_impartial .release _
  · exact .liftExcept (.modify fun _ _ h => I.unlocked hk h)

theorem isHeld_impartial : Impartial I (isHeld (k.lockKey engine.config.lockPrefix)) := by
  refine .bind (.liftExcept (strike_impartial .isHeld)) fun r => ?_
  split
  · exact fail_impartial .isHeld _
  · exact fun _ _ h => ⟨congrArg (some ∘ Except.ok) (I.held hk h), fun _ _ => trivial, h⟩

end

end CallM

/-! ## Views -/

namespace ViewM

variable {α : Type}

theorem ofCall_alike {x y : CallM α} (hx : Alike I x y) : Alike I (ViewM.ofCall x) (ViewM.ofCall y) :=
  .ofExcept (.liftField (Alike.run hx))

theorem ofEngine_alike {x y : EngineM α} (hx : Alike I x y) :
    Alike I (ViewM.ofEngine x) (ViewM.ofEngine y) :=
  ofCall_alike (.liftExcept hx)

theorem bindView_alike {f g : View → ViewM α} (hf : ∀ v, I.keys v.key → Alike I (f v) (g v)) :
    Alike I (getThe View >>= f) (getThe View >>= g) :=
  fun v hv => hf v hv v hv

theorem bindKey_alike {f g : StateKey → ViewM α} (hf : ∀ k, I.keys k → Alike I (f k) (g k)) :
    Alike I (key >>= f) (key >>= g) :=
  fun v hv => hf v.key hv v hv

theorem remember_impartial (e : Entity) :
    Impartial I (modifyThe View (fun v => { v with memo := some e }) : ViewM Unit) :=
  fun _ hv => .pure hv

theorem refresh_impartial : Impartial I refresh := by
  refine bindKey_alike fun k hk => .bind (ofCall_alike (CallM.fetch_impartial hk)) fun e => ?_
  exact .bind (remember_impartial e) fun _ => .pure

theorem entity_impartial : Impartial I entity := by
  refine bindView_alike fun v _ => ?_
  split
  · exact .pure
  · exact refresh_impartial

theorem storedState_impartial : Impartial I storedState := by
  refine bindKey_alike fun k hk => .bind (ofCall_alike (CallM.getField_impartial hk)) fun value => ?_
  exact .ofExcept .pure

theorem memoizedState_impartial : Impartial I memoizedState := by
  refine bindKey_alike fun k _ => .bind entity_impartial fun e => ?_
  split
  · exact .ofExcept .pure
  · exact .throw

theorem setField_impartial (field : String) (value : Json) : Impartial I (setField field value) := by
  refine bindKey_alike fun k hk => .bind (ofCall_alike (CallM.setField_impartial hk field value)) fun _ => ?_
  exact .bind refresh_impartial fun _ => .pure

theorem setState_impartial (value : String) : Impartial I (setState value) :=
  bindKey_alike fun _ _ => setField_impartial _ _

theorem lock_impartial : Impartial I (lock engine) :=
  bindKey_alike fun _ hk => ofCall_alike (CallM.acquire_impartial hk)

theorem unlock_impartial : Impartial I (unlock engine) :=
  bindKey_alike fun _ hk => ofCall_alike (CallM.release_impartial hk)

theorem isLocked_impartial : Impartial I (isLocked engine) :=
  bindKey_alike fun _ hk => ofCall_alike (CallM.isHeld_impartial hk)

theorem askConditions_impartial (e : Entity) (cs : List Condition) :
    Impartial I (EngineM.askConditions e cs) := by
  induction cs with
  | nil => exact .pure
  | cons c cs ih =>
      refine .bind (.modify fun _ _ h => I.remarked rfl h) fun _ => ?_
      split
      · exact ih
      · exact .pure

theorem askPermissions_impartial (e : Entity) (caller : Caller) (ps : List Permission) :
    Impartial I (EngineM.askPermissions e caller ps) := by
  induction ps with
  | nil => exact .pure
  | cons p ps ih =>
      refine .bind (.modify fun _ _ h => I.remarked rfl h) fun _ => ?_
      split
      · exact ih
      · exact .pure

theorem conditionsHold_impartial (cs : List Condition) : Impartial I (conditionsHold cs) := by
  unfold conditionsHold
  split
  · exact .pure
  · exact .bind entity_impartial fun e => ofEngine_alike (askConditions_impartial e cs)

theorem permissionsHold_impartial (user : Option Caller) (ps : List Permission) :
    Impartial I (permissionsHold user ps) := by
  unfold permissionsHold
  split
  · exact .pure
  split
  · exact .pure
  · exact .bind entity_impartial fun e => ofEngine_alike (askPermissions_impartial e _ ps)

theorem onFresh_alike {k : StateKey} (hk : I.keys k) {x y : ViewM α} (hx : Alike I x y) :
    Alike I (onFresh k x) (onFresh k y) :=
  Likeness.Agree.bind (hx (.fresh k) hk) fun _ _ => .pure trivial

end ViewM

/-! ## Resolution -/

theorem Transition.isValid_impartial (user : Option Caller) (t : Transition) :
    Impartial I (t.isValid engine user) := by
  refine .bind ViewM.isLocked_impartial fun locked => ?_
  split
  · exact .pure
  refine .bind (ViewM.permissionsHold_impartial user _) fun permitted => ?_
  split
  · exact ViewM.conditionsHold_impartial _
  · exact .pure

theorem Transition.isAvailable_impartial (user : Option Caller) (t : Transition) :
    Impartial I (t.isAvailable engine user) := by
  refine .bind ViewM.memoizedState_impartial fun state => ?_
  split
  · exact t.isValid_impartial user
  · exact .pure

theorem Process.isValid_impartial (user : Option Caller) (p : Process) : Impartial I (p.isValid user) := by
  refine .bind (ViewM.permissionsHold_impartial user _) fun permitted => ?_
  split
  · exact ViewM.conditionsHold_impartial _
  · exact .pure

namespace Inquiry

variable (q : Inquiry) (more : Appetite)

theorem walkOwn_impartial (ts : List Transition) (seen : List Item) :
    Impartial I (q.walkOwn engine more ts seen) := by
  induction ts generalizing seen with
  | nil => exact .pure
  | cons t ts ih =>
      unfold walkOwn
      split
      · exact .pure
      split
      · exact ih seen
      refine .bind (Alike.run (t.isAvailable_impartial q.user)) fun r => ?_
      split
      · exact ih _
      · exact ih seen
      · exact ih _

mutual

theorem walk_impartial (p : Process) (seen : List Item) : Impartial I (q.walk engine more p seen) := by
  match p with
  | ⟨name, conditions, permissions, transitions, nested⟩ =>
      unfold walk
      refine .bind (Alike.run (Process.isValid_impartial q.user _)) fun r => ?_
      split
      · exact .pure
      · exact .pure
      · refine .bind (walkOwn_impartial q more transitions seen) fun own => ?_
        exact walkNested_impartial nested own

theorem walkNested_impartial (ps : List Process) (seen : List Item) :
    Impartial I (q.walkNested engine more ps seen) := by
  match ps with
  | [] => exact .pure
  | p :: ps =>
      unfold walkNested
      split
      · exact .pure
      · exact .bind (walk_impartial p seen) fun first => walkNested_impartial ps first

end

end Inquiry

theorem Process.candidates_impartial (q : Inquiry) (p : Process) : Impartial I (p.candidates engine q) := by
  refine .bind (.liftExcept (.bind (q.walk_impartial _ p []) fun _ => .pure)) fun items => ?_
  exact .ofExcept .pure

/-! ## Commands -/

namespace Op

/-- Operations on the view and the context of the run. -/
def isOwn : Op → Bool
  | removeEntity | invoke .. => false
  | _ => true

def isInvoke : Op → Bool
  | invoke .. => true
  | _ => false

theorem isInvoke_of_isOwn {op : Op} (h : op.isOwn = true) : op.isInvoke = false := by
  cases op <;> first | rfl | cases h

theorem isInvoke_of_allowed {op : Op} (h : op.Allowed False) : op.isInvoke = false := by
  cases op <;> first | rfl | exact h.elim

variable {start start' : Start}

theorem getView_impartial : Impartial I (getThe View : CommandM View) :=
  fun _ _ hv => .pure hv

theorem bindView_alike {α : Type} {f g : View → CommandM α}
    (hf : ∀ v, I.keys v.key → Alike I (f v) (g v)) :
    Alike I (getThe View >>= f) (getThe View >>= g) :=
  fun c v hv => hf v hv c v hv

/-- What such an operation does depends neither on what worlds differ in nor on what starts transitions. -/
theorem run_alike (op : Op) (hop : op.isInvoke = false) :
    Alike I (op.run engine start) (op.run engine start') := by
  cases op with
  | key => exact fun _ _ hv => .pure hv
  | context => exact fun _ _ hv => .pure hv
  | entity => exact .liftCommand (Alike.run ViewM.entity_impartial)
  | storedState => exact .liftCommand (Alike.run ViewM.storedState_impartial)
  | memoizedState => exact .liftCommand (Alike.run ViewM.memoizedState_impartial)
  | refresh => exact .liftCommand (Alike.run ViewM.refresh_impartial)
  | setField field value => exact .liftCommand (Alike.run (ViewM.setField_impartial field value))
  | lock => exact .liftCommand (Alike.run ViewM.lock_impartial)
  | unlock => exact .liftCommand (Alike.run ViewM.unlock_impartial)
  | isLocked => exact .liftCommand (Alike.run ViewM.isLocked_impartial)
  | insert name value => exact fun _ _ hv => .pure hv
  | writeBehind field value =>
      refine bindView_alike fun v hv => ?_
      exact .liftCommand (.liftField (Alike.run (CallM.setField_impartial hv field value)))
  | removeEntity =>
      refine bindView_alike fun v hv => ?_
      exact .liftCommand (.liftField (.modify fun _ _ h => I.removed hv h))
  | write note => exact .liftCommand (.liftField (.modify fun _ _ h => I.remarked rfl h))
  | invoke => cases hop

end Op

section

variable {start start' : Start} {allowed : Op → Prop} (hallowed : ∀ op, allowed op → op.isInvoke = false)

include hallowed

theorem Program.run_alike {α : Type} (p : Program α) (hp : p.All allowed) :
    Alike I (p.run engine start) (p.run engine start') := by
  induction p with
  | pure a => exact .pure
  | call op next ih => exact .bind (op.run_alike (hallowed op hp.1)) fun reply => ih reply (hp.2 reply)

theorem Command.runAll_alike (cs : List Command) (hcs : ∀ c ∈ cs, c.body.All allowed) :
    Alike I (Command.runAll engine start cs) (Command.runAll engine start' cs) := by
  induction cs with
  | nil => exact .pure
  | cons c cs ih =>
      unfold runAll
      refine .bind Op.getView_impartial fun v => .bind (fun _ _ hv => .pure hv) fun context => ?_
      refine .bind (.liftCommand (.liftField (.modify fun _ _ h => I.remarked rfl h))) fun _ => ?_
      refine .bind (c.body.run_alike hallowed (hcs c (List.mem_cons_self ..))) fun r => ?_
      split
      · exact ih fun c hc => hcs c (List.mem_cons_of_mem _ hc)
      · exact .pure

end

/-! ## Transitions -/

namespace Transition

variable {start start' : Start} (t : Transition)

theorem report_impartial (kind : EventKind) : Impartial I (t.report kind) :=
  ViewM.bindKey_alike fun _ hk => ViewM.ofEngine_alike (.modify fun _ _ h => I.told _ _ hk h)

theorem writeState_impartial (value : String) (phase : Phase) : Impartial I (t.writeState value phase) := by
  unfold writeState
  refine .bind (.tryCatch (.map ViewM.memoizedState_impartial) fun _ => .pure) fun source => ?_
  exact .bind (ViewM.setState_impartial value) fun _ => t.report_impartial _

theorem enter_impartial : Impartial I t.enter := by
  unfold enter
  split
  · exact .pure
  · refine .bind ViewM.memoizedState_impartial fun previous => ?_
    exact .bind (t.writeState_impartial _ _) fun _ => .pure

/-- A start gets one of the numbers on either side. -/
theorem recordStart_alike {α : Type} (context : Context) {f g : Nat → ViewM α}
    (hf : ∀ n n', I.numbers n n' → Alike I (f n) (g n')) :
    Alike I (t.recordStart context >>= f) (t.recordStart context >>= g) := by
  intro v hv w w' h
  have hstored : w.entities.getField v.key = w'.entities.getField v.key :=
    EntityStore.getField_congr (by rw [I.found hv h])
  obtain ⟨hnumbers, hlike⟩ :=
    I.started ⟨w.starts, t, v.key, (w.entities.getField v.key).toOption, v.memo, context⟩ hv h
  refine hf w.starts w'.starts hnumbers v hv _ _ ?_
  rw [← hstored]
  exact hlike

theorem recordStart_impartial (engine : Engine) {e : Executor} (context : Context) :
    Impartial (.under engine e) (t.recordStart context) := by
  intro v _ w w' h
  subst h
  exact ⟨rfl, fun _ _ => trivial, rfl⟩

section

variable {number number' : Option Nat} (hnumber : Option.Rel I.numbers number number')

include hnumber

theorem release_alike : Alike I (t.release engine number) (t.release engine number') := by
  unfold release
  extract_lets rest
  have hrest (u) : Impartial I (rest u) :=
    .bind ViewM.unlock_impartial fun _ => t.report_impartial _
  cases hnumber with
  | none => exact hrest ()
  | some h =>
      refine ViewM.bindKey_alike fun k hk => .bind ?_ hrest
      exact ViewM.ofEngine_alike (.modify fun _ _ hlike => I.landed hk h hlike)

theorem abort_alike (previous : Option String) (reason : String) :
    Alike I (t.abort engine previous reason number) (t.abort engine previous reason number') := by
  unfold abort
  extract_lets rest rest'
  have hrest (u) : Alike I (rest u) (rest' u) :=
    .bind (t.release_alike hnumber) fun _ => t.report_impartial _
  split
  · exact .bind (t.writeState_impartial _ _) hrest
  · exact hrest ()

variable {allowed : Op → Prop} (hallowed : ∀ op, allowed op → op.isInvoke = false)

include hallowed

omit hnumber in
theorem runCallbacks_alike {callbacks : List Command} (onFailurePath : Bool) (context : Context)
    (hcs : ∀ c ∈ callbacks, c.body.All allowed) :
    Alike I (t.runCallbacks engine start callbacks onFailurePath context)
      (t.runCallbacks engine start' callbacks onFailurePath context) := by
  unfold runCallbacks
  refine .bind (.liftExcept (Command.runAll_alike hallowed callbacks hcs context)) fun r => ?_
  obtain ⟨failure, context⟩ := r
  cases failure with
  | none => exact .pure
  | some f => exact .bind (t.report_impartial _) fun _ => .pure

theorem succeed_alike (context : Context) (ht : t.Obeys allowed) :
    Alike I (t.succeed engine start context number) (t.succeed engine start' context number') := by
  unfold succeed
  extract_lets rest rest'
  have hrest (u) : Alike I (rest u) (rest' u) := by
    refine .bind (t.release_alike hnumber) fun _ => .bind (t.report_impartial _) fun _ => ?_
    exact t.runCallbacks_alike hallowed false context ht.callbacks
  split
  · exact .bind (t.writeState_impartial _ _) hrest
  · exact hrest ()

theorem fail_alike (failure : CommandFailure) (context : Context) (ht : t.Obeys allowed) :
    Alike I (t.fail engine start failure context number)
      (t.fail engine start' failure context number') := by
  unfold fail
  extract_lets rest rest'
  have hrest (u) : Alike I (rest u) (rest' u) := by
    refine .bind (t.release_alike hnumber) fun _ => .bind (t.report_impartial _) fun _ => ?_
    exact .bind (t.runCallbacks_alike hallowed true _ ht.failureCallbacks) fun _ => .pure
  split
  · exact .bind (t.writeState_impartial _ _) hrest
  · exact hrest ()

omit hnumber hallowed in
theorem chain_alike (hstart : ∀ t context root, Alike I (start t context root) (start' t context root))
    (next : String) (context : Context) (root : Option Process) :
    Alike I (t.chain engine start next context root) (t.chain engine start' next context root) := by
  unfold chain
  cases root with
  | none => exact t.report_impartial _
  | some root =>
      refine ViewM.bindKey_alike fun k hk => ?_
      refine .bind (ViewM.ofEngine_alike (ViewM.onFresh_alike hk ?_)) fun outcome => ?_
      · refine .bind (root.candidates_impartial _) fun ts => ?_
        split
        · exact hstart _ _ _
        · exact t.report_impartial _
      · cases outcome with
        | ok _ => exact .pure
        | error e => exact ViewM.ofEngine_alike (.modify fun _ _ h => I.told _ _ hk h)

theorem complete_alike (hstart : ∀ t context root, Alike I (start t context root) (start' t context root))
    (context : Context) (root : Option Process) (ht : t.Obeys allowed) :
    Alike I (t.complete engine start context root number)
      (t.complete engine start' context root number') := by
  refine .bind (t.succeed_alike hnumber hallowed context ht) fun context => ?_
  split
  · exact t.chain_alike hstart _ context root
  · exact .pure

end

end Transition

end Workflow
