import Workflow.Proofs.Watches
import Workflow.Proofs.WholeTrees

/-!
# Declared states

In a run in which the transitions of one process tree drive a field, and no command writes it, the field holds
the state it had at first or one that the tree declares as written. Faults, executors and what bound processes
remember from earlier calls do not matter, nor does it matter how far the run gets.
-/

namespace Workflow

namespace Process

theorem mem_targetStates {p : Process} {t : Transition} {state : String} (ht : t ∈ p.allTransitions)
    (hstate : state ∈ t.writes) : state ∈ p.targetStates :=
  mem_targetStates_iff.2 ⟨t, ht, hstate⟩

theorem targetStates_subset_allStates (p : Process) : p.targetStates ⊆ p.allStates := by
  intro state hstate
  obtain ⟨t, ht, hwrites⟩ := mem_targetStates_iff.1 hstate
  exact mem_allStates_iff.2 ⟨t, ht, .inr hwrites⟩

end Process

def World.Removed (w : World) (K : StateKey) : Prop :=
  ∃ m ∈ w.journal, m.entry = .removed K.kind K.id

/-- The field holds an admitted text, or its entity is gone because a command has removed it. -/
def World.Admits (w : World) (K : StateKey) (admitted : String → Prop) (entities : EntityStore) : Prop :=
  (∃ state, entities.getField K = .ok (.str state) ∧ admitted state) ∨
    (entities.find? K.kind K.id = none ∧ w.Removed K)

namespace World.Admits

variable {K : StateKey} {admitted : String → Prop} {w w' : World} {entities entities' : EntityStore}

theorem later (h : w.Admits K admitted entities) (hjournal : w.journal <:+ w'.journal) :
    w'.Admits K admitted entities :=
  h.imp_right fun ⟨hnone, m, hm, hremoved⟩ => ⟨hnone, m, hjournal.subset hm, hremoved⟩

/-- A write of the field makes its value the one in question, and no other write touches it. -/
theorem written {key : StateKey} {value : Json} (h : w.Admits K admitted entities)
    (hset : entities.setField key value = .ok entities')
    (hvalue : key = K → ∃ state, value = .str state ∧ admitted state) : w.Admits K admitted entities' := by
  by_cases hkey : key = K
  · obtain ⟨state, rfl, hstate⟩ := hvalue hkey
    exact .inl ⟨state, hkey ▸ EntityStore.getField_setField_self hset, hstate⟩
  · unfold Admits
    rw [EntityStore.getField_setField_of_ne hset hkey]
    refine h.imp_right fun ⟨hnone, hremoved⟩ => ⟨?_, hremoved⟩
    simp [EntityStore.find?_setField hset, hnone]

theorem recalled {v : View} {e : Entity} {state : String} (h : w.Admits K admitted entities)
    (hkey : v.key = K) (he : entities.find? v.key.kind v.key.id = some e)
    (hrecalls : (v.remember e).Recalls state) : admitted state := by
  subst hkey
  obtain ⟨e', he', hstate⟩ := hrecalls
  cases he'
  rcases h with ⟨state', hstored, hadmitted⟩ | ⟨hnone, -⟩
  · rw [EntityStore.getField_of_find? he hstate] at hstored
    cases hstored
    exact hadmitted
  · cases he.symm.trans hnone

end World.Admits

/-- At each moment up to now the field was as admitted. -/
def World.Keeps (K : StateKey) (admitted : String → Prop) (w : World) : Prop :=
  ∀ scene ∈ w.scenes, w.Admits K admitted scene.entities

namespace World.Keeps

variable {K : StateKey} {admitted : String → Prop} {w w' : World}

theorem now (h : w.Keeps K admitted) : w.Admits K admitted w.entities :=
  h w.toScene (List.mem_cons_self ..)

theorem moved (h : w.Keeps K admitted) (hentities : w'.entities = w.entities := by rfl)
    (hjournal : w'.journal = w.journal := by rfl) : w'.Keeps K admitted := by
  have hlater : w.journal <:+ w'.journal := hjournal ▸ List.suffix_rfl
  intro scene hscene
  cases List.mem_cons.1 hscene with
  | inl heq =>
      rw [heq, hentities]
      exact h.now.later hlater
  | inr hscene => exact (h scene (List.mem_cons_of_mem _ (hjournal ▸ hscene))).later hlater

theorem recorded {e : Entry} (h : w.Keeps K admitted) (hnow : (w'.record e).Admits K admitted w'.entities)
    (hjournal : w'.journal = w.journal := by rfl) : (w'.record e).Keeps K admitted := by
  have hlater : w.journal <:+ (w'.record e).journal := hjournal ▸ List.suffix_cons _ _
  intro scene hscene
  simp only [scenes, record, List.map_cons, List.mem_cons] at hscene
  rcases hscene with rfl | rfl | hscene
  · exact hnow
  · exact hnow
  · exact (h scene (List.mem_cons_of_mem _ (hjournal ▸ hscene))).later hlater

theorem noted {e : Entry} (h : w.Keeps K admitted) (hentities : w'.entities = w.entities := by rfl)
    (hjournal : w'.journal = w.journal := by rfl) : (w'.record e).Keeps K admitted :=
  h.recorded (hentities ▸ h.now.later (hjournal ▸ List.suffix_cons _ _)) hjournal

theorem quiet {engine : Engine} {k : StateKey} (h : w.Keeps K admitted) (hquiet : Quiet engine k w w') :
    w'.Keeps K admitted := by
  cases hquiet with
  | struck call => exact h.moved
  | tookOff => exact h.moved
  | remarked e => exact h.noted
  | told action kind => exact h.noted
  | locked => exact h.noted
  | unlocked => exact h.noted
  | started s => exact h.noted
  | landed number => exact h.noted

theorem written {key : StateKey} {value : Json} {entities : EntityStore} (h : w.Keeps K admitted)
    (hset : w.entities.setField key value = .ok entities)
    (hvalue : key = K → ∃ state, value = .str state ∧ admitted state) :
    (w.write entities key value).Keeps K admitted :=
  h.recorded ((h.now.written hset hvalue).later (List.suffix_cons _ _))

theorem rewritten {key : StateKey} {value : String} {entities : EntityStore} (h : w.Keeps K admitted)
    (hset : w.entities.setField key (.str value) = .ok entities) (hvalue : key = K → admitted value) :
    (w.rewrite entities key value).Keeps K admitted :=
  (h.written hset fun hkey => ⟨value, rfl, hvalue hkey⟩).moved

theorem removed (h : w.Keeps K admitted) (kind id : String) : (w.remove kind id).Keeps K admitted := by
  apply h.recorded
  by_cases hsame : kind = K.kind ∧ id = K.id
  · obtain ⟨rfl, rfl⟩ := hsame
    exact .inr ⟨EntityStore.find?_remove_self _ _ _, _, List.mem_cons_self .., rfl⟩
  · have hfind := w.entities.find?_remove_of_ne hsame
    have hfield : (w.entities.remove kind id).getField K = w.entities.getField K :=
      EntityStore.getField_congr (by rw [hfind])
    have hsame : w.Admits K admitted (w.entities.remove kind id) := by
      unfold Admits
      rw [hfield, hfind]
      exact h.now
    exact hsame.later (List.suffix_cons _ _)

end World.Keeps

/-- The watch over the values of the field `K`, which a view may remember for long. -/
def admission (engine : Engine) (serves : StateKey → Transition → Prop) (K : StateKey)
    (admitted : String → Prop) (hspares : engine.Spares serves K)
    (hwrites : ∀ t, serves K t → ∀ state ∈ t.writes, admitted state) : Watch engine where
  holds := World.Keeps K admitted
  keys _ := True
  serves := serves
  allows := Op.Spares engine serves K
  keeps v := ∀ state, v.key = K → v.Recalls state → admitted state
  sees _ _ := True
  legit k state := k = K → admitted state
  calm := False
  faultless := nofun
  obeys {k t} ht := hspares k t ht
  invoked hop hp := hop.invoked hp
  writes := by
    rintro k t state ht hstate rfl
    exact hwrites t ht state hstate
  recalled h hstate hkey := h _ hkey hstate
  fresh {v} hnone := by
    refine ⟨fun state _ ⟨e, he, _⟩ => ?_, fun _ => trivial⟩
    cases hnone.symm.trans he
  seen _ _ := trivial
  read he h := ⟨fun _ hkey hstate => h.now.recalled hkey he hstate, trivial⟩
  quiet _ hquiet h := h.quiet hquiet
  queued _ h := h.moved
  pooled _ h := h.moved
  switched _ h := h.moved
  wrote _ hop hvalue hset h := h.written hset fun heq => absurd heq (hop.ne hvalue)
  removed _ _ h := h.removed _ _
  changed _ _ _ hlegit _ _ hset h := (h.rewritten hset hlegit).noted
  lost _ hlegit hset _ h := h.rewritten hset hlegit

namespace System

variable {engine : Engine} {depth : Nat} {cs : List Call} {w : World}

/--
Let a run start idle, and let the transitions that serve the field `K` be those of a process tree, where no
command of those that serve any field writes `K`. At each moment up to the end, `K` holds the text that it held
at first or one of the target states of the tree, and so it stays within all its states if it started there,
as long as no command removes the entity.
-/
theorem run_declared {p : Process} {serves : StateKey → Transition → Prop} {K : StateKey} {state₀ : String}
    (hw : w.Idle) (hstored : w.entities.getField K = .ok (.str state₀)) (hspares : engine.Spares serves K)
    (hserves : ∀ t, serves K t → t ∈ p.allTransitions)
    (hcs : ∀ r ∈ (start w).run engine depth cs, r.Within serves) :
    ∀ scene ∈ ((start w).finish engine depth cs).world.scenes,
      (∃ state, scene.entities.getField K = .ok (.str state) ∧
        (state = state₀ ∨ state ∈ p.targetStates) ∧ (state₀ ∈ p.allStates → state ∈ p.allStates)) ∨
      (scene.entities.find? K.kind K.id = none ∧ ((start w).finish engine depth cs).world.Removed K) := by
  let I := admission engine serves K (fun state => state = state₀ ∨ state ∈ p.targetStates) hspares
    fun t ht state hstate => .inr (Process.mem_targetStates (hserves t ht) hstate)
  have hkeeps : I.holds w := by
    intro scene hscene
    simp only [World.scenes, hw.journal, List.map_nil, List.mem_singleton] at hscene
    rw [hscene]
    exact .inl ⟨state₀, hstored, .inl rfl⟩
  have hfinish := Watch.finish_holds (I := I) (s := start w) ⟨fun _ => trivial, fun _ _ h => h.moved⟩
    (.start ⟨hkeeps, hw.jobless _⟩) depth fun r hr => ⟨hcs r hr, fun _ _ => trivial⟩
  intro scene hscene
  refine (hfinish scene hscene).imp_left fun ⟨state, hvalue, hstate⟩ => ⟨state, hvalue, hstate, fun hall => ?_⟩
  cases hstate with
  | inl heq => exact heq ▸ hall
  | inr htarget => exact p.targetStates_subset_allStates htarget

/-- The locker is sealed in the end; no state of its run is foreign to the tree. -/
theorem sealed_declared :
    ((start (Locker.world .queue)).finish (Locker.engine []) 3 Locker.sealedCalls).world.starts = 2 ∧
    ∀ scene ∈ ((start (Locker.world .queue)).finish (Locker.engine []) 3 Locker.sealedCalls).world.scenes,
      (∃ state, scene.entities.getField Locker.field = .ok (.str state) ∧
        (state = "open" ∨ state ∈ Locker.sealing.targetStates) ∧
        ("open" ∈ Locker.sealing.allStates → state ∈ Locker.sealing.allStates)) ∨
      (scene.entities.find? "locker" "1" = none ∧
        ((start (Locker.world .queue)).finish (Locker.engine []) 3 Locker.sealedCalls).world.Removed
          Locker.field) := by
  refine ⟨by decide +kernel, ?_⟩
  exact run_declared ⟨rfl, rfl, rfl⟩ rfl Locker.engine_spares (fun t ht => ht.2) Locker.sealed_within

end System

end Workflow
