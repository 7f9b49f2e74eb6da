import Workflow.Proofs.Engine.Blocks
import Workflow.Proofs.Watches

/-!
# Writes that are told

A transition that has written the state reads the entity anew before it tells of the change. When that reading
fails the write stays done and is not told; every other write of a state is told, and nothing else is.
-/

namespace Workflow

/-! ## What is told and what is written -/

/-- The change of the field that the event tells. -/
def Event.change? (k : StateKey) (e : Event) : Option Change :=
  match e.kind with
  | .stateChanged source target _ => if e.key = k then some ⟨source, target⟩ else none
  | _ => none

/-- The changes told of a field, the earliest first. -/
def EventBus.changes (bus : EventBus) (k : StateKey) : List Change :=
  bus.log.filterMap (Event.change? k)

/-- The value that was written into the field. -/
def Entry.written? (k : StateKey) : Entry → Option Json
  | .wrote key value => if key = k then some value else none
  | _ => none

/-- The values written into a field, the earliest first. -/
def World.written (w : World) (k : StateKey) : List Json :=
  w.journal.reverse.filterMap fun m => m.entry.written? k

theorem Event.change?_of_isChange {e : Event} (h : e.kind.isChange = false) (k : StateKey) :
    e.change? k = none := by
  obtain ⟨key, action, kind⟩ := e
  cases kind <;> first | rfl | cases h

theorem Entry.written?_of_isQuiet {e : Entry} (h : e.isQuiet = true) (k : StateKey) :
    e.written? k = none := by
  cases e <;> first | rfl | cases h

theorem EventBus.changes_emit (bus : EventBus) (e : Event) (k : StateKey) :
    (bus.emit e).changes k = bus.changes k ++ (e.change? k).toList := by
  cases h : e.change? k <;> simp [changes, List.filterMap_append, h]

theorem World.written_record (w : World) (e : Entry) (k : StateKey) :
    (w.record e).written k = w.written k ++ (e.written? k).toList := by
  cases h : e.written? k <;> simp [written, record, List.filterMap_append, h]

namespace Quiet

variable {engine : Engine} {k : StateKey} {w w' : World} (h : Quiet engine k w w')

include h

theorem changes (K : StateKey) : w'.bus.changes K = w.bus.changes K := by
  cases h with
  | told action kind hkind =>
      have hnone := Event.change?_of_isChange (e := ⟨k, action, kind⟩) hkind K
      simp [World.emit, World.record, EventBus.changes_emit, hnone]
  | _ => rfl

theorem written (K : StateKey) : w'.written K = w.written K := by
  obtain hsame | ⟨e, he, hjournal⟩ := h.journal
  · simp only [World.written, hsame]
  · simp [World.written, hjournal, List.filterMap_append, Entry.written?_of_isQuiet he]

end Quiet

/-! ## Readings that fail -/

/-- A call of `fetch` is going to fail. -/
def Fault.hidesEntity (f : Fault) : Bool :=
  f.call == .fetch && f.effect != .loses

/-- How many readings of an entity are going to fail. -/
def World.hidden (w : World) : Nat :=
  w.faults.countP Fault.hidesEntity

theorem Fault.countP_strike (call : StoreCall) (faults : List Fault) :
    (strike call faults).2.countP hidesEntity ≤ faults.countP hidesEntity := by
  induction faults with
  | nil => exact Nat.le_refl _
  | cons f rest ih =>
      obtain ⟨struck, skip, effect⟩ := f
      by_cases hcall : struck = call
      · cases skip with
        | zero => simp [strike, hcall, List.countP_cons]
        | succ n => simp [strike, hcall, List.countP_cons, hidesEntity]
      · simp only [strike, hcall, ↓reduceIte, List.countP_cons]
        omega

/-- A reading that fails uses up a fault planned for it. -/
theorem Fault.countP_strike_fetch {faults : List Fault} {message : String}
    (h : (strike .fetch faults).1 = some (.fails message)) :
    (strike .fetch faults).2.countP hidesEntity + 1 = faults.countP hidesEntity := by
  induction faults with
  | nil => cases h
  | cons f rest ih =>
      obtain ⟨struck, skip, effect⟩ := f
      by_cases hcall : struck = .fetch
      · cases skip with
        | zero =>
            have heffect : effect = .fails message := by simpa [strike, hcall] using h
            simp [strike, hcall, hidesEntity, heffect]
        | succ n => simp [strike, hcall] at h
      · simp only [strike, hcall, ↓reduceIte] at h
        have hrest := ih h
        simp only [strike, hcall, ↓reduceIte, List.countP_cons]
        omega

theorem World.hidden_struck (w : World) (call : StoreCall) : (w.struck call).hidden ≤ w.hidden :=
  Fault.countP_strike call w.faults

theorem Quiet.hidden {engine : Engine} {k : StateKey} {w w' : World} (h : Quiet engine k w w') :
    w'.hidden ≤ w.hidden := by
  unfold World.hidden
  obtain hsame | ⟨call, hstruck⟩ := h.faults
  · exact Nat.le_of_eq (by rw [hsame])
  · rw [hstruck]
    exact Fault.countP_strike call w.faults

/-! ## The account of the writes -/

/-- What is told of the field was written, and what was written is told, but for readings that have failed. -/
structure World.Reports (K : StateKey) (planned : Nat) (w : World) : Prop where
  sublist : ((w.bus.changes K).map fun c => Json.str c.target).Sublist (w.written K)
  counted : (w.written K).length + w.hidden ≤ (w.bus.changes K).length + planned

namespace World.Reports

variable {K : StateKey} {planned : Nat} {w w' : World}

theorem next (h : w.Reports K planned) (hchanges : w'.bus.changes K = w.bus.changes K)
    (hwritten : w'.written K = w.written K) (hhidden : w'.hidden ≤ w.hidden) : w'.Reports K planned := by
  refine ⟨?_, ?_⟩
  · rw [hchanges, hwritten]
    exact h.sublist
  · have hcounted := h.counted
    rw [hchanges, hwritten]
    omega

theorem recorded (h : w.Reports K planned) {e : Entry} (he : e.written? K = none)
    (hjournal : w'.journal = w.journal := by rfl) (hbus : w'.bus = w.bus := by rfl)
    (hfaults : w'.faults = w.faults := by rfl) : (w'.record e).Reports K planned := by
  refine h.next (congrArg (·.changes K) hbus) ?_ (Nat.le_of_eq (congrArg (List.countP _) hfaults))
  rw [written_record, he]
  simp [written, hjournal]

/-- A write of the field that is lost has used up a fault. -/
theorem lost {k : StateKey} {entities : EntityStore} {value message : String} (h : w.Reports K planned)
    (hstrike : (Fault.strike .fetch w.faults).1 = some (.fails message)) :
    (w.rewrite entities k value).Reports K planned := by
  have hwritten : (w.rewrite entities k value).written K =
      w.written K ++ (Entry.written? K (.wrote k (.str value))).toList :=
    written_record { w with entities := entities } _ K
  have hhidden : (w.rewrite entities k value).hidden + 1 = w.hidden := Fault.countP_strike_fetch hstrike
  have hlength : (Entry.written? K (.wrote k (.str value))).toList.length ≤ 1 := by
    cases Entry.written? K (.wrote k (.str value)) <;> simp
  refine ⟨?_, ?_⟩
  · rw [hwritten]
    exact h.sublist.trans (List.sublist_append_left _ _)
  · have hcounted := h.counted
    have hchanges : (w.rewrite entities k value).bus.changes K = w.bus.changes K := rfl
    rw [hwritten, hchanges, List.length_append]
    omega

/-- A change that is told tells of the write just before it. -/
theorem changed {k : StateKey} {entities : EntityStore} {value : String} (h : w.Reports K planned)
    (source : Option String) (action : String) (phase : Phase) :
    ((w.rewrite entities k value).emit ⟨k, action, .stateChanged source value phase⟩).Reports K planned := by
  generalize he : (⟨k, action, .stateChanged source value phase⟩ : Event) = e
  have hwritten : ((w.rewrite entities k value).emit e).written K =
      w.written K ++ (Entry.written? K (.wrote k (.str value))).toList := by
    have hwrote := written_record { w with entities := entities } (.wrote k (.str value)) K
    have hemitted := written_record { w.rewrite entities k value with
      bus := (w.rewrite entities k value).bus.emit e } (.emitted e) K
    simp only [Entry.written?, Option.toList_none, List.append_nil] at hemitted
    exact hemitted.trans hwrote
  have hchanges : ((w.rewrite entities k value).emit e).bus.changes K =
      w.bus.changes K ++ (e.change? K).toList := EventBus.changes_emit _ _ _
  have hhidden : ((w.rewrite entities k value).emit e).hidden ≤ w.hidden := w.hidden_struck .fetch
  have hcounted := h.counted
  by_cases hkey : k = K
  · have hwrote : Entry.written? K (.wrote k (.str value)) = some (.str value) := if_pos hkey
    have htold : e.change? K = some ⟨source, value⟩ := by simp [← he, Event.change?, hkey]
    rw [hwrote] at hwritten
    rw [htold] at hchanges
    refine ⟨?_, ?_⟩
    · rw [hchanges, hwritten, List.map_append]
      exact h.sublist.append (List.Sublist.refl _)
    · rw [hchanges, hwritten, List.length_append, List.length_append]
      simp only [Option.toList_some, List.length_singleton]
      omega
  · have hwrote : Entry.written? K (.wrote k (.str value)) = none := if_neg hkey
    have htold : e.change? K = none := by simp [← he, Event.change?, hkey]
    rw [hwrote, Option.toList_none, List.append_nil] at hwritten
    rw [htold, Option.toList_none, List.append_nil] at hchanges
    exact h.next hchanges hwritten hhidden

end World.Reports

/-- The watch that keeps account of the writes of the field `K`. -/
def reporting (engine : Engine) (serves : StateKey → Transition → Prop) (K : StateKey) (planned : Nat)
    (hspares : engine.Spares serves K) : Watch engine where
  holds := World.Reports K planned
  keys _ := True
  serves := serves
  allows := Op.Spares engine serves K
  keeps _ := True
  sees _ _ := True
  legit _ _ := True
  calm := False
  faultless := nofun
  obeys {k t} ht := hspares k t ht
  invoked hop hp := hop.invoked hp
  writes _ _ := trivial
  recalled _ _ := trivial
  fresh _ := Watch.unasked
  seen _ _ := trivial
  read _ _ := ⟨trivial, trivial⟩
  quiet _ hquiet h := h.next (hquiet.changes K) (hquiet.written K) hquiet.hidden
  queued _ h := h.next rfl rfl (Nat.le_refl _)
  pooled _ h := h.next rfl rfl (Nat.le_refl _)
  switched _ h := h.next rfl rfl (Nat.le_refl _)
  wrote _ hop hvalue _ h := h.recorded (if_neg (hop.ne hvalue))
  removed _ _ h := h.recorded rfl
  changed _ _ _ _ _ _ _ h := h.changed _ _ _
  lost _ _ _ hstrike h := h.lost hstrike

namespace System

variable {engine : Engine} {depth : Nat} {cs : List Call} {w : World}

/--
Let a run start idle and with nothing told, and let no command of a transition that serves a field write the
field `K`. The states told as targets of changes of `K` are values that were written into it, in their order;
as many writes are missing among them as readings of an entity have failed, at most. So nothing is missing when
no such reading is to fail.
-/
theorem run_reports {serves : StateKey → Transition → Prop} {K : StateKey} (hw : w.Idle)
    (hlog : w.bus.log = []) (hspares : engine.Spares serves K)
    (hcs : ∀ r ∈ (start w).run engine depth cs, r.Within serves) :
    let last := ((start w).finish engine depth cs).world
    ((last.bus.changes K).map fun c => Json.str c.target).Sublist (last.written K) ∧
      (last.written K).length + last.hidden ≤ (last.bus.changes K).length + w.hidden ∧
      (w.hidden = 0 → last.written K = (last.bus.changes K).map fun c => Json.str c.target) := by
  intro last
  let I := reporting engine serves K w.hidden hspares
  have hstart : I.holds w := by
    refine ⟨?_, ?_⟩
    · simp [EventBus.changes, hlog]
    · simp [World.written, hw.journal, EventBus.changes, hlog]
  have hfinish : last.Reports K w.hidden :=
    Watch.finish_holds (I := I) (s := start w)
      ⟨fun _ => trivial, fun _ _ h => h.next rfl rfl (Nat.le_refl _)⟩
      (.start ⟨hstart, hw.jobless _⟩) depth fun r hr => ⟨hcs r hr, fun _ _ => trivial⟩
  refine ⟨hfinish.sublist, hfinish.counted, fun hnone => ?_⟩
  apply (hfinish.sublist.eq_of_length_le _).symm
  have hcounted := hfinish.counted
  rw [List.length_map]
  omega

/-- The locker with an entity store that cannot be read once, when the state has just been written. -/
def blinded : World :=
  { Locker.world .inline with faults := [⟨.fetch, 2, .fails "down"⟩] }

def blindedFinish : System :=
  (start blinded).finish (Locker.engine []) 3 Locker.sealedCalls

theorem blinded_reports : blinded.hidden = 1 ∧
    ((blindedFinish.world.bus.changes Locker.field).map fun c => Json.str c.target).Sublist
      (blindedFinish.world.written Locker.field) ∧
    (blindedFinish.world.written Locker.field).length + blindedFinish.world.hidden ≤
      (blindedFinish.world.bus.changes Locker.field).length + blinded.hidden ∧
    (blinded.hidden = 0 → blindedFinish.world.written Locker.field =
      (blindedFinish.world.bus.changes Locker.field).map fun c => Json.str c.target) :=
  ⟨rfl, run_reports ⟨rfl, rfl, rfl⟩ rfl Locker.engine_spares Locker.sealed_within⟩

/-- A write is not told when the entity cannot be read anew. -/
theorem run_leaves_untold :
    ¬ ∀ (engine : Engine) (depth : Nat) (w : World) (cs : List Call) (K : StateKey)
      (serves : StateKey → Transition → Prop), w.Idle → w.bus.log = [] → engine.Spares serves K →
      (∀ r ∈ (start w).run engine depth cs, r.Within serves) →
      ((start w).finish engine depth cs).world.written K =
        (((start w).finish engine depth cs).world.bus.changes K).map fun c => Json.str c.target := by
  intro h
  have hall := h (Locker.engine []) 3 blinded Locker.sealedCalls Locker.field Locker.Seals ⟨rfl, rfl, rfl⟩ rfl
    Locker.engine_spares Locker.sealed_within
  have hlength := congrArg List.length hall
  revert hlength
  decide +kernel

end System

end Workflow
