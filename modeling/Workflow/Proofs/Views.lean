import Mathlib.Data.List.Induction
import Workflow.Proofs.Engine.Serving

/-!
# Many views of one store

Views of any fields of any entities read and write one store in turn. It holds what it held at first with the
writes done to it in the order of the calls, however old the memories of the views are.
-/

namespace Workflow

/-! ## Writes in turn -/

namespace EntityStore

variable {s : EntityStore} {key : StateKey}

/-- The store when the fields have been written one after the other. -/
def assignAll (s : EntityStore) (writes : List (StateKey × Json)) : EntityStore :=
  writes.foldl (fun s w => s.assign w.1 w.2) s

theorem assignAll_append (writes writes' : List (StateKey × Json)) :
    s.assignAll (writes ++ writes') = (s.assignAll writes).assignAll writes' :=
  List.foldl_append

theorem getField_assignAll_of_ne {writes : List (StateKey × Json)} (h : ∀ w ∈ writes, w.1 ≠ key) :
    (s.assignAll writes).getField key = s.getField key := by
  induction writes generalizing s with
  | nil => rfl
  | cons w writes ih =>
      obtain ⟨hw, hwrites⟩ := List.forall_mem_cons.1 h
      exact (ih hwrites).trans (getField_assign_of_ne hw)

theorem isSome_find?_assignAll (writes : List (StateKey × Json)) (kind id : String) :
    ((s.assignAll writes).find? kind id).isSome = (s.find? kind id).isSome := by
  induction writes generalizing s with
  | nil => rfl
  | cons w writes ih => exact ih.trans (isSome_find?_assign kind id)

end EntityStore

/-! ## Views of one world -/

inductive ViewCall
  | entity
  | memoizedState
  | storedState
  | refresh
  | setField (field : String) (value : Json)
  | setState (value : String)

namespace ViewCall

def perform : ViewCall → ViewM Unit
  | entity => do
    let _ ← ViewM.entity
  | memoizedState => do
    let _ ← ViewM.memoizedState
  | storedState => do
    let _ ← ViewM.storedState
  | refresh => do
    let _ ← ViewM.refresh
  | setField field value => ViewM.setField field value
  | setState value => ViewM.setState value

/-- The field that a call through a view of the key writes, and the value. -/
def write? : ViewCall → StateKey → Option (StateKey × Json)
  | setField field value, key => some (key.beside field, value)
  | setState value, key => some (key, .str value)
  | _, _ => none

/-- The call reads the entity anew. -/
def renews : ViewCall → Bool
  | refresh | setField .. | setState _ => true
  | _ => false

/-- The call asks for the entity, which it reads only where the view remembers none. -/
def asks : ViewCall → Bool
  | entity | memoizedState => true
  | _ => false

theorem write?_of_asks {c : ViewCall} (h : c.asks) : c.write? = fun _ => none := by
  cases c <;> first | rfl | cases h

theorem not_renews_of_asks {c : ViewCall} (h : c.asks) : ¬ c.renews := by
  cases c <;> simp_all [renews, asks]

end ViewCall

/-- What a call that does the write, if there is one, leaves of a world. -/
structure World.Assigns (w : World) (o : Option (StateKey × Json)) (w' : World) : Prop where
  entities : w'.entities = w.entities.assignAll o.toList
  faults : w'.faults = w.faults

theorem World.Serves.assign {w w' : World} (h : w.Serves) {o : Option (StateKey × Json)} (hw' : w.Assigns o w') :
    w'.Serves := by
  rw [Serves, hw'.faults]
  exact h

theorem World.answered_assigns {α : Type} (w : World) (call : StoreCall) (r : Except EngineError α) :
    w.Assigns none (w.answered call r) := by
  cases r <;> exact ⟨rfl, rfl⟩

/-- The view after a call that leaves this entity stored. -/
def View.after (v : View) (c : ViewCall) (stored : Option Entity) : View where
  key := v.key
  memo := if c.renews then stored else if c.asks then v.memo.or stored else v.memo

theorem View.remember_getD (v : View) (e : Entity) :
    v.remember (v.memo.getD e) = { v with memo := v.memo.or (some e) } := by
  obtain ⟨key, memo⟩ := v
  cases memo <;> rfl

namespace ViewCall

variable {v : View} {w : World} {e : Entity}

/-- What a call through a view comes to: its write, if it is one, and what the view remembers of that. -/
def Yields (v : View) (w : World) (c : ViewCall) : Prop :=
  ∃ r w', c.perform.outcome v w = (some (r, v.after c (w'.entities.find? v.key.kind v.key.id)), w') ∧
    w.Assigns (c.write? v.key) w'

theorem setField_yields (hw : w.Serves) (he : w.entities.find? v.key.kind v.key.id = some e) (field : String)
    (value : Json) : (setField field value).Yields v w := by
  have hset : (w.entities.assign (v.key.beside field) value).find? v.key.kind v.key.id =
      some (e.set field value) := EntityStore.find?_assign_beside he field value
  refine ⟨.ok (), w.write (w.entities.assign (v.key.beside field) value) (v.key.beside field) value, ?_, rfl, rfl⟩
  simp only [perform, ViewM.setField_outcome hw he, World.write, World.record, hset]
  rfl

theorem yields (hw : w.Serves) (he : w.entities.find? v.key.kind v.key.id = some e) (c : ViewCall) :
    c.Yields v w := by
  cases c with
  | entity =>
      refine ⟨.ok (), w, ?_, rfl, rfl⟩
      simp only [perform, ViewM.outcome_bind, ViewM.entity_outcome hw he, v.remember_getD, he]
      rfl
  | memoizedState =>
      obtain ⟨r, hr⟩ : ∃ r, ViewM.memoizedState.outcome v w =
          (some (r, { v with memo := v.memo.or (some e) }), w) :=
        ⟨_, by rw [ViewM.memoizedState_outcome hw he, v.remember_getD]⟩
      simp only [Yields, perform, ViewM.outcome_bind, hr]
      cases r <;> exact ⟨_, w, by rw [he]; rfl, rfl, rfl⟩
  | storedState =>
      obtain ⟨r, w', hr, hassigns⟩ : ∃ r w', ViewM.storedState.outcome v w = (some (r, v), w') ∧ w.Assigns none w' :=
        ⟨_, _, ViewM.storedState_outcome hw, w.answered_assigns ..⟩
      simp only [Yields, perform, ViewM.outcome_bind, hr]
      cases r <;> exact ⟨_, w', rfl, hassigns⟩
  | refresh =>
      refine ⟨.ok (), w, ?_, rfl, rfl⟩
      simp only [perform, ViewM.outcome_bind, ViewM.refresh_outcome hw he, he]
      rfl
  | setField field value => exact setField_yields hw he field value
  | setState value =>
      obtain ⟨r, w', hr, hassigns⟩ := setField_yields hw he v.key.field (.str value)
      exact ⟨r, w', (ViewM.setState_outcome value v w).trans hr, hassigns⟩

end ViewCall

/-! ## Runs -/

/-- A world and the views that look at it. -/
structure Gallery where
  world : World
  views : List View

namespace Gallery

def step (g : Gallery) (call : Nat × ViewCall) : Gallery :=
  match g.views[call.1]? with
  | none => g
  | some v =>
    match call.2.perform.outcome v g.world with
    | (some (_, v'), w') => ⟨w', g.views.set call.1 v'⟩
    | (none, w') => ⟨w', g.views⟩

/-- Calls, each through the view of the given place, in turn. -/
def run (g : Gallery) (calls : List (Nat × ViewCall)) : Gallery :=
  calls.foldl step g

/-- What the view of the place answers. -/
def ask {α : Type} (g : Gallery) (i : Nat) (x : ViewM α) : Option (Except EngineError α) :=
  g.views[i]?.bind fun v => (x.outcome v g.world).1.map Prod.fst

/-- The entity of the view of the place, as it is stored. -/
def stored (g : Gallery) (i : Nat) : Option Entity :=
  (g.views[i]?.map View.key).bind fun key => g.world.entities.find? key.kind key.id

def write? (g : Gallery) (call : Nat × ViewCall) : Option (StateKey × Json) :=
  (g.views[call.1]?.map View.key).bind call.2.write?

/-- The fields that the calls write, and the values, in order. -/
def writes (g : Gallery) (calls : List (Nat × ViewCall)) : List (StateKey × Json) :=
  calls.filterMap g.write?

/-- No call of the store fails, and the entities of all views are there. -/
structure Served (g : Gallery) : Prop where
  serves : g.world.Serves
  found : ∀ v ∈ g.views, (g.world.entities.find? v.key.kind v.key.id).isSome

/-- What the view of the place remembers is the entity as it was stored right after its latest call that reads it
anew, or as it was at its first question if there was no such call. -/
def Remembers (g : Gallery) (calls : List (Nat × ViewCall)) (i : Nat) (e : Entity) : Prop :=
  (∃ before c after, calls = before ++ (i, c) :: after ∧ c.renews ∧
    (∀ c', (i, c') ∈ after → ¬ c'.renews) ∧ (g.run (before ++ [(i, c)])).stored i = some e) ∨
  ((∀ c, (i, c) ∈ calls → ¬ c.renews) ∧ ∃ before c after, calls = before ++ (i, c) :: after ∧ c.asks ∧
    (∀ c', (i, c') ∈ before → ¬ c'.asks) ∧ (g.run before).stored i = some e)

variable {g : Gallery} {calls : List (Nat × ViewCall)} {i : Nat} {c : ViewCall} {v : View} {e : Entity}

theorem run_append (g : Gallery) (calls : List (Nat × ViewCall)) (call : Nat × ViewCall) :
    g.run (calls ++ [call]) = (g.run calls).step call := by
  simp [run]

theorem step_of_none (h : g.views[i]? = none) : g.step (i, c) = g := by
  simp [step, h]

theorem step_of_some (hg : g.Served) (h : g.views[i]? = some v) (c : ViewCall) :
    ∃ w', g.world.Assigns (g.write? (i, c)) w' ∧
      g.step (i, c) = ⟨w', g.views.set i (v.after c (w'.entities.find? v.key.kind v.key.id))⟩ := by
  obtain ⟨e, he⟩ := Option.isSome_iff_exists.1 (hg.found v (List.mem_of_getElem? h))
  obtain ⟨r, w', hr, hassigns⟩ := ViewCall.yields hg.serves he c
  exact ⟨w', by simpa [write?, h] using hassigns, by simp [step, h, hr]⟩

theorem step_keys (hg : g.Served) (call : Nat × ViewCall) :
    (g.step call).views.map View.key = g.views.map View.key := by
  obtain ⟨i, c⟩ := call
  cases h : g.views[i]? with
  | none => rw [step_of_none h]
  | some v =>
      obtain ⟨w', -, hstep⟩ := step_of_some hg h c
      rw [hstep, List.map_set]
      apply List.ext_getElem?
      intro j
      rcases eq_or_ne i j with rfl | hne
      · rw [List.getElem?_set_self (by simpa using (List.getElem?_eq_some_iff.1 h).1), List.getElem?_map, h]
        rfl
      · rw [List.getElem?_set_ne hne]

theorem step_entities (hg : g.Served) (call : Nat × ViewCall) :
    (g.step call).world.entities = g.world.entities.assignAll (g.write? call).toList := by
  obtain ⟨i, c⟩ := call
  cases h : g.views[i]? with
  | none => simp [step_of_none h, write?, h, EntityStore.assignAll]
  | some v =>
      obtain ⟨w', hassigns, hstep⟩ := step_of_some hg h c
      rw [hstep, hassigns.entities]

theorem Served.step (hg : g.Served) (call : Nat × ViewCall) : (g.step call).Served := by
  constructor
  · obtain ⟨i, c⟩ := call
    cases h : g.views[i]? with
    | none => rw [step_of_none h]; exact hg.serves
    | some v =>
        obtain ⟨w', hassigns, hstep⟩ := step_of_some hg h c
        rw [hstep]
        exact hg.serves.assign hassigns
  · intro v hv
    have hkey : v.key ∈ g.views.map View.key := step_keys hg call ▸ List.mem_map_of_mem hv
    obtain ⟨v', hv', heq⟩ := List.mem_map.1 hkey
    rw [step_entities hg, EntityStore.isSome_find?_assignAll, ← heq]
    exact hg.found v' hv'

theorem Served.run (hg : g.Served) (calls : List (Nat × ViewCall)) : (g.run calls).Served := by
  induction calls using List.reverseRecOn with
  | nil => exact hg
  | append_singleton calls call ih =>
      rw [run_append]
      exact ih.step call

theorem run_keys (hg : g.Served) (calls : List (Nat × ViewCall)) :
    (g.run calls).views.map View.key = g.views.map View.key := by
  induction calls using List.reverseRecOn with
  | nil => rfl
  | append_singleton calls call ih => rw [run_append, step_keys (hg.run calls), ih]

theorem run_write? (hg : g.Served) (calls : List (Nat × ViewCall)) : (g.run calls).write? = g.write? := by
  funext ⟨i, c⟩
  rw [write?, write?, ← List.getElem?_map, run_keys hg, List.getElem?_map]

theorem run_entities (hg : g.Served) (calls : List (Nat × ViewCall)) :
    (g.run calls).world.entities = g.world.entities.assignAll (g.writes calls) := by
  induction calls using List.reverseRecOn with
  | nil => rfl
  | append_singleton calls call ih =>
      have hwrites : g.writes (calls ++ [call]) = g.writes calls ++ (g.write? call).toList := by
        cases h : g.write? call <;> simp [writes, h]
      rw [run_append, step_entities (hg.run calls), run_write? hg, ih, hwrites]
      simp [EntityStore.assignAll]

namespace Remembers

theorem append {j : Nat} (h : g.Remembers calls i e) (hc : j = i → ¬ c.renews) :
    g.Remembers (calls ++ [(j, c)]) i e := by
  have hlast : ∀ c', (i, c') ∈ [(j, c)] → ¬ c'.renews := by
    simp only [List.mem_singleton, Prod.mk.injEq]
    rintro c' ⟨rfl, rfl⟩
    exact hc rfl
  rcases h with ⟨before, c', after, rfl, hrenews, hafter, hstored⟩ |
    ⟨hnone, before, c', after, rfl, hasks, hbefore, hstored⟩
  · refine .inl ⟨before, c', after ++ [(j, c)], by simp, hrenews, fun c'' hc'' => ?_, hstored⟩
    exact (List.mem_append.1 hc'').elim (hafter c'') (hlast c'')
  · refine .inr ⟨fun c'' hc'' => ?_, before, c', after ++ [(j, c)], by simp, hasks, hbefore, hstored⟩
    exact (List.mem_append.1 hc'').elim (hnone c'') (hlast c'')

theorem renewed (hc : c.renews) (hstored : (g.run (calls ++ [(i, c)])).stored i = some e) :
    g.Remembers (calls ++ [(i, c)]) i e :=
  .inl ⟨calls, c, [], rfl, hc, by simp, hstored⟩

theorem asked (hc : c.asks) (hnone : ∀ c', (i, c') ∈ calls → ¬ c'.renews ∧ ¬ c'.asks)
    (hstored : (g.run calls).stored i = some e) : g.Remembers (calls ++ [(i, c)]) i e := by
  refine .inr ⟨fun c' hc' => ?_, calls, c, [], rfl, hc, fun c' hc' => (hnone c' hc').2, hstored⟩
  simp only [List.mem_append, List.mem_singleton, Prod.mk.injEq] at hc'
  rcases hc' with hc' | ⟨-, rfl⟩
  · exact (hnone c' hc').1
  · exact ViewCall.not_renews_of_asks hc

end Remembers

theorem run_view_self (hg : g.Served) (calls : List (Nat × ViewCall)) (i : Nat) (c : ViewCall) :
    (g.run (calls ++ [(i, c)])).views[i]? =
      (g.run calls).views[i]?.map fun v => v.after c ((g.run (calls ++ [(i, c)])).stored i) := by
  rw [run_append]
  cases h : (g.run calls).views[i]? with
  | none => simp [step_of_none h, h]
  | some v =>
      obtain ⟨hi, -⟩ := List.getElem?_eq_some_iff.1 h
      obtain ⟨w', -, hstep⟩ := step_of_some (hg.run calls) h c
      simp [hstep, stored, hi, View.after]

theorem run_view_of_ne (hg : g.Served) (calls : List (Nat × ViewCall)) {i j : Nat} (h : j ≠ i) (c : ViewCall) :
    (g.run (calls ++ [(j, c)])).views[i]? = (g.run calls).views[i]? := by
  rw [run_append]
  cases hj : (g.run calls).views[j]? with
  | none => rw [step_of_none hj]
  | some v =>
      obtain ⟨w', -, hstep⟩ := step_of_some (hg.run calls) hj c
      rw [hstep, List.getElem?_set_ne h]

theorem stored_of_asks (hg : g.Served) (hc : c.asks) :
    (g.run (calls ++ [(i, c)])).stored i = (g.run calls).stored i := by
  have hnone : (g.run calls).write? (i, c) = none := by simp [write?, ViewCall.write?_of_asks hc]
  have hkeys := step_keys (hg.run calls) (i, c)
  rw [run_append, stored, stored, ← List.getElem?_map, hkeys, List.getElem?_map, step_entities (hg.run calls),
    hnone]
  rfl

theorem Served.stored (hg : g.Served) (hv : g.views[i]? = some v) : ∃ e, g.stored i = some e := by
  simp only [Gallery.stored, hv, Option.map_some, Option.bind_some]
  exact Option.isSome_iff_exists.1 (hg.found v (List.mem_of_getElem? hv))

/-- A view remembers nothing until it has been asked or has read, and then what the calls up to now leave it. -/
theorem memo_of_run (hg : g.Served) (hfresh : ∀ v ∈ g.views, v.memo = none)
    (hv : (g.run calls).views[i]? = some v) :
    (v.memo = none → ∀ c, (i, c) ∈ calls → ¬ c.renews ∧ ¬ c.asks) ∧
      ∀ e, v.memo = some e → g.Remembers calls i e := by
  induction calls using List.reverseRecOn generalizing v with
  | nil =>
      have hnone : v.memo = none := hfresh v (List.mem_of_getElem? hv)
      simp [hnone]
  | append_singleton calls call ih =>
      obtain ⟨j, c⟩ := call
      by_cases hij : j = i
      · subst hij
        obtain ⟨e, hstored⟩ := (hg.run _).stored hv
        rw [run_view_self hg, hstored] at hv
        obtain ⟨u, hu, rfl⟩ := Option.map_eq_some_iff.1 hv
        obtain ⟨hnone, hsome⟩ := ih hu
        cases hrenews : c.renews with
        | true =>
            simp only [View.after, hrenews, if_true]
            refine ⟨nofun, fun e' he' => ?_⟩
            exact .renewed hrenews (hstored.trans he')
        | false =>
        cases hasks : c.asks with
        | true =>
            simp only [View.after, hrenews, hasks, if_true]
            cases hmemo : u.memo with
            | none =>
                refine ⟨nofun, fun e' he' => ?_⟩
                exact .asked hasks (hnone hmemo) ((stored_of_asks hg hasks).symm.trans (hstored.trans he'))
            | some m =>
                refine ⟨nofun, fun e' he' => ?_⟩
                exact (hsome e' (hmemo.trans he')).append fun _ => by simp [hrenews]
        | false =>
            simp only [View.after, hrenews, hasks]
            refine ⟨fun hmemo c' hc' => ?_, fun e' he' => (hsome e' he').append fun _ => by simp [hrenews]⟩
            simp only [List.mem_append, List.mem_singleton, Prod.mk.injEq] at hc'
            rcases hc' with hc' | ⟨-, rfl⟩
            · exact hnone hmemo c' hc'
            · simp [hrenews, hasks]
      · rw [run_view_of_ne hg calls hij] at hv
        obtain ⟨hnone, hsome⟩ := ih hv
        refine ⟨fun hmemo c' hc' => ?_, fun e he => (hsome e he).append fun h => absurd h hij⟩
        simp only [List.mem_append, List.mem_singleton, Prod.mk.injEq] at hc'
        exact hnone hmemo c' (hc'.resolve_right fun h => hij h.1.symm)

theorem found_of_mem_writes (hg : g.Served) {key : StateKey} {value : Json} (h : (key, value) ∈ g.writes calls) :
    (g.world.entities.find? key.kind key.id).isSome := by
  obtain ⟨⟨i, c⟩, -, hwrite⟩ := List.mem_filterMap.1 h
  obtain ⟨key', hkey', hc⟩ := Option.bind_eq_some_iff.1 hwrite
  obtain ⟨v, hv, rfl⟩ := Option.map_eq_some_iff.1 hkey'
  have hfound := hg.found v (List.mem_of_getElem? hv)
  cases c <;> cases hc <;> exact hfound

theorem getField_of_last_write (hg : g.Served) {key : StateKey} {value : Json}
    {before after : List (StateKey × Json)} (hwrites : g.writes calls = before ++ (key, value) :: after)
    (hafter : ∀ w ∈ after, w.1 ≠ key) : (g.run calls).world.entities.getField key = .ok value := by
  have hmem : (key, value) ∈ g.writes calls := by simp [hwrites]
  have hfound := found_of_mem_writes hg hmem
  rw [run_entities hg, hwrites, EntityStore.assignAll_append]
  change EntityStore.getField (((g.world.entities.assignAll before).assign key value).assignAll after) key = _
  rw [EntityStore.getField_assignAll_of_ne hafter]
  exact EntityStore.getField_assign_self (by rwa [EntityStore.isSome_find?_assignAll])

/-- Right after a view has written the state, it reads what it wrote, from the store and from its memory. -/
theorem ask_after_setState (hg : g.Served) (calls : List (Nat × ViewCall)) (hi : i < g.views.length)
    (value : String) :
    (g.run (calls ++ [(i, .setState value)])).ask i ViewM.storedState = some (.ok value) ∧
      (g.run (calls ++ [(i, .setState value)])).ask i ViewM.memoizedState = some (.ok value) := by
  have hserved := hg.run (calls ++ [(i, .setState value)])
  have hi' : i < (g.run calls).views.length := by
    have hlength := congrArg List.length (run_keys hg calls)
    simp only [List.length_map] at hlength
    omega
  obtain ⟨u, hu⟩ : ∃ u, (g.run calls).views[i]? = some u := ⟨_, List.getElem?_eq_getElem hi'⟩
  have hself := run_view_self hg calls i (.setState value)
  rw [hu] at hself
  have hfield : (g.run (calls ++ [(i, .setState value)])).world.entities.getField u.key = .ok (.str value) := by
    rw [run_append, step_entities (hg.run calls)]
    simp only [write?, hu, Option.map_some, Option.bind_some, ViewCall.write?]
    exact EntityStore.getField_assign_self ((hg.run calls).found u (List.mem_of_getElem? hu))
  obtain ⟨e, he, hstate⟩ := EntityStore.getField_eq_ok hfield
  have hstored : (g.run (calls ++ [(i, .setState value)])).stored i = some e := by
    rw [stored, ← List.getElem?_map, run_keys hg, ← run_keys hg calls, List.getElem?_map, hu]
    exact he
  have hview : (g.run (calls ++ [(i, .setState value)])).views[i]? = some ⟨u.key, some e⟩ := by
    rw [hself, hstored]
    rfl
  constructor
  · rw [ask, hview, Option.bind_some, ViewM.storedState_outcome hserved.serves, hfield]
    rfl
  · rw [ask, hview, Option.bind_some, ViewM.memoizedState_outcome (v := ⟨u.key, some e⟩) hserved.serves he,
      Option.getD_some, hstate]
    rfl

/-- Whatever calls are made through the views, no write is lost: the store holds what it held at first with the
writes done to it in order, so the last write of a field stands; a view remembers the entity as its own last write
or renewal left it, or as it first found it; and a view reads the state that it has just written. -/
theorem run_coherent (hg : g.Served) (hfresh : ∀ v ∈ g.views, v.memo = none) (calls : List (Nat × ViewCall)) :
    (g.run calls).world.entities = g.world.entities.assignAll (g.writes calls) ∧
    (∀ before key value after, g.writes calls = before ++ (key, value) :: after →
      (∀ w ∈ after, w.1 ≠ key) → (g.run calls).world.entities.getField key = .ok value) ∧
    (∀ i v e, (g.run calls).views[i]? = some v → v.memo = some e → g.Remembers calls i e) ∧
    ∀ i < g.views.length, ∀ value,
      (g.run (calls ++ [(i, .setState value)])).ask i ViewM.storedState = some (.ok value) ∧
      (g.run (calls ++ [(i, .setState value)])).ask i ViewM.memoizedState = some (.ok value) :=
  ⟨run_entities hg calls, fun _ _ _ _ => getField_of_last_write hg, fun _ _ e hv => (memo_of_run hg hfresh hv).2 e,
    fun _ hi => ask_after_setState hg calls hi⟩

/-- Two fields of one entity, each with a view. -/
def twin : Gallery where
  world :=
    { World.start .queue (.new 16) with
      entities := ⟨[⟨"locker", "1", [("state", .str "open"), ("note", .str "")]⟩]⟩ }
  views := [.fresh ⟨"locker", "1", "state"⟩, .fresh ⟨"locker", "1", "note"⟩]

/-- The first view writes with the memory of an entity on which the second has written since. -/
def twinCalls : List (Nat × ViewCall) :=
  [(0, .entity), (1, .setState "kept"), (0, .setState "locked")]

theorem twin_coherent :
    twin.Served ∧ (∀ v ∈ twin.views, v.memo = none) ∧
    (twin.run twinCalls).world.entities.getField ⟨"locker", "1", "note"⟩ = .ok (.str "kept") ∧
    (∀ i v e, (twin.run twinCalls).views[i]? = some v → v.memo = some e → twin.Remembers twinCalls i e) ∧
    (twin.run (twinCalls ++ [(1, .setState "new")])).ask 1 ViewM.memoizedState = some (.ok "new") := by
  have hserved : twin.Served := ⟨by simp [twin, World.start, World.Serves], by decide⟩
  have hfresh : ∀ v ∈ twin.views, v.memo = none := by simp [twin, View.fresh]
  obtain ⟨-, hwrites, hmemos, hstates⟩ := run_coherent hserved hfresh twinCalls
  exact ⟨hserved, hfresh, hwrites [] _ _ [(⟨"locker", "1", "state"⟩, .str "locked")] rfl (by decide), hmemos,
    (hstates 1 (by decide) "new").2⟩

end Gallery

end Workflow
