import Workflow.Proofs.Engine.Watching
import Workflow.Proofs.Runs

/-!
# Watching runs

What a watch says of the world holds through a whole run, when the calls bring along only transitions that the
watch serves, and views that see their fields.
-/

namespace Workflow

namespace Report

/-- The bound process that the call works with. -/
def bound? (r : Report) : Option BoundProcess :=
  match r.call with
  | .invoke i .. | .change i .. => r.before.bound[i]?
  | _ => none

/-- The transitions that the call brings along are such as serve the field. -/
def Within (serves : StateKey → Transition → Prop) (r : Report) : Prop :=
  match r.call with
  | .bind process key => ∀ t ∈ process.allTransitions, serves key t
  | .change _ t _ => ∀ b, r.bound? = some b → serves b.view.key t
  | _ => True

/-- The bound process has not been used before. -/
def Fresh (r : Report) : Prop :=
  ∀ b, r.bound? = some b → b.view.memo = none

instance (r : Report) : Decidable r.Fresh :=
  decidable_of_iff ((r.bound?.all fun b => b.view.memo.isNone) = true) (by simp [Fresh, Option.all_eq_true])

end Report

/-- The operation does not write the field `K`, and what it invokes serves the target. -/
def Op.Spares (engine : Engine) (serves : StateKey → Transition → Prop) (K k : StateKey) : Op → Prop
  | .setField field _ | .writeBehind field _ => { k with field := field } ≠ K
  | .invoke process target _ _ =>
    ∀ p, engine.processes.lookup process = some p → ∀ t ∈ p.allTransitions, serves target t
  | _ => True

/-- No command of a transition that serves a field writes the field `K`. -/
def Engine.Spares (engine : Engine) (serves : StateKey → Transition → Prop) (K : StateKey) : Prop :=
  ∀ k t, serves k t → t.Obeys (Op.Spares engine serves K k)

theorem Op.Spares.ne {engine : Engine} {serves : StateKey → Transition → Prop} {K k : StateKey} {op : Op}
    {field : String} {value : Json} (h : Op.Spares engine serves K k op)
    (hwrites : op.writes? = some (field, value)) : { k with field := field } ≠ K := by
  cases op with
  | setField field' value' =>
      cases hwrites
      exact h
  | writeBehind field' value' =>
      cases hwrites
      exact h
  | _ => cases hwrites

/-- On any field, what the operation invokes serves the target. -/
theorem Op.Spares.invoked {engine : Engine} {serves : StateKey → Transition → Prop} {K k target : StateKey}
    {process action : String} {data : Table} {p : Process}
    (h : Op.Spares engine serves K k (.invoke process target action data))
    (hp : engine.processes.lookup process = some p) : True ∧ ∀ t ∈ p.allTransitions, serves target t :=
  ⟨trivial, h p hp⟩

namespace Watch

variable {engine : Engine} (I : Watch engine)

/-- Between two calls, bound processes are such as serve their fields. -/
structure Tended (s : System) : Prop where
  base : I.Base s.world
  serves : ∀ b ∈ s.bound, I.Serves b.view.key b.process
  keeps : ∀ b ∈ s.bound, I.keeps b.view

/-- The call brings along what the watch serves, and its view sees the field. -/
structure Suits (r : Report) : Prop where
  within : r.Within I.serves
  sees : ∀ b, r.bound? = some b → I.sees b.view r.before.world

/-- The watch is about all fields, and it does not mind that jobs are taken. -/
structure Called : Prop where
  keys : ∀ k, I.keys k
  taken : ∀ {w} queue pool, I.holds w → I.holds { w with queue := queue, pool := pool }

variable {I} {s : System}

namespace Tended

/-- As long as nothing is bound, it is a matter of the world. -/
theorem start {w : World} (hw : I.Base w) : I.Tended (.start w) :=
  ⟨hw, fun _ hb => absurd hb List.not_mem_nil, fun _ hb => absurd hb List.not_mem_nil⟩

theorem moved {w : World} (h : I.Tended s) (hw : I.Base w) : I.Tended { s with world := w } :=
  ⟨hw, h.serves, h.keeps⟩

theorem viewed {b : BoundProcess} {i : Nat} {v : View} {w : World} (h : I.Tended s) (hb : b ∈ s.bound)
    (hw : I.Own b.view.key (v, w)) : I.Tended ⟨w, s.bound.set i { b with view := v }⟩ := by
  have hset (b') (hb' : b' ∈ s.bound.set i { b with view := v }) :
      b' ∈ s.bound ∨ b' = { b with view := v } := List.mem_or_eq_of_mem_set hb'
  refine ⟨hw.base, fun b' hb' => ?_, fun b' hb' => ?_⟩
  · rcases hset b' hb' with hb' | rfl
    · exact h.serves b' hb'
    · have hkey : v.key = b.view.key := hw.onKey
      exact hkey ▸ h.serves b hb
  · rcases hset b' hb' with hb' | rfl
    · exact h.keeps b' hb'
    · exact hw.keeps

end Tended

variable (hcalled : I.Called) (hs : I.Tended s)

include hcalled hs

omit hcalled in
theorem onBound_tended {i : Nat} {m : BoundProcess → ViewM Unit}
    (hm : ∀ b, s.bound[i]? = some b → Meets (I.Eye b.view.key) (m b) (fun _ => I.Own b.view.key)
      (I.exits b.view.key))
    (hsees : ∀ b, s.bound[i]? = some b → I.sees b.view s.world) :
    I.holds (s.onBound i m).2.world ∧ ((s.onBound i m).1.isSome → I.Tended (s.onBound i m).2) := by
  rcases s.onBound_cases i m with heq | ⟨b, hb, ⟨r, v, w, ho, heq⟩ | ⟨w, ho, heq⟩⟩
  · rw [heq]
    exact ⟨hs.base.holds, fun _ => hs⟩
  · have hmem := List.mem_of_getElem? hb
    have hends := (hm b hb b.view s.world ⟨⟨hs.base, rfl, hs.keeps b hmem⟩, hsees b hb⟩).1 (r, v) w ho
    rw [heq]
    cases r with
    | ok _ => exact ⟨hends.base.holds, fun _ => hs.viewed hmem hends⟩
    | error _ => exact ⟨hends.base.holds, fun _ => hs.viewed hmem hends⟩
  · have hmem := List.mem_of_getElem? hb
    rw [heq]
    exact ⟨(hm b hb b.view s.world ⟨⟨hs.base, rfl, hs.keeps b hmem⟩, hsees b hb⟩).2 w ho, nofun⟩

theorem onJob_tended {place : Nat} {m : Job → EngineM (Except EngineError Unit)}
    (hm : ∀ job, I.Carries job → Meets I.Base (m job) (fun _ => I.Base) (.only I.holds)) :
    I.holds (s.onJob place m).2.world ∧ ((s.onJob place m).1.isSome → I.Tended (s.onJob place m).2) := by
  rcases s.onJob_cases place m with heq | ⟨job, w, htake, heq⟩
  · rw [heq]
    exact ⟨hs.base.holds, fun _ => hs⟩
  · obtain ⟨queue, pool, hperm, rfl⟩ := World.takeJob_some htake
    have hbase : I.Base { s.world with queue := queue, pool := pool } :=
      ⟨hcalled.taken queue pool hs.base.holds,
        fun j hj => hs.base.jobs j (hperm.symm.mem_iff.1 (List.mem_cons_of_mem _ hj))⟩
    have hjob := hs.base.jobs job (hperm.symm.mem_iff.1 (List.mem_cons_self ..)) hcalled.keys
    have hran := hm job hjob _ hbase
    rw [heq]
    cases ho : EngineM.outcome (m job) { s.world with queue := queue, pool := pool } with
    | mk o w =>
        cases o with
        | none => exact ⟨hran.2 w ho, nofun⟩
        | some r =>
            have hw := hran.1 r w ho
            exact ⟨hw.holds, fun _ => hs.moved hw⟩

/-- What holds of the world is kept by each call, and by one that is cut off as well. -/
theorem perform_tended (depth : Nat) {c : Call} (hc : I.Suits (s.report engine depth c)) :
    I.holds (s.perform engine depth c).2.world ∧
      ((s.perform engine depth c).1.isSome → I.Tended (s.perform engine depth c).2) := by
  have hstart := execute_minds (I := I) depth
  have hwithin := hc.within
  cases c with
  | bind process key =>
      refine ⟨hs.base.holds, fun _ => ⟨hs.base, fun b hb => ?_, fun b hb => ?_⟩⟩
      · rcases List.mem_append.1 hb with hb | hb
        · exact hs.serves b hb
        · cases List.mem_singleton.1 hb
          exact hwithin
      · rcases List.mem_append.1 hb with hb | hb
        · exact hs.keeps b hb
        · cases List.mem_singleton.1 hb
          exact (I.fresh rfl).1
  | invoke i action user context =>
      apply onBound_tended hs _ hc.sees
      intro b hb
      exact invokeWith_meets hstart (hcalled.keys _) (hs.serves b (List.mem_of_getElem? hb)) _ _
  | change i t context =>
      apply onBound_tended hs _ hc.sees
      intro b hb
      exact hstart context (hcalled.keys _) (hwithin b hb) nofun
  | run place => exact onJob_tended hcalled hs fun job hjob => job_meets hstart hjob
  | runDetached place =>
      apply onJob_tended hcalled hs
      intro job hjob
      exact .bind (m := EngineM) (runDetached_meets hstart hjob) fun _ => .pure fun _ h => h

theorem finish_holds (depth : Nat) {cs : List Call}
    (hcs : ∀ r ∈ s.run engine depth cs, I.Suits r) : I.holds (s.finish engine depth cs).world := by
  induction cs generalizing s with
  | nil => exact hs.base.holds
  | cons c cs ih =>
      obtain ⟨hholds, htended⟩ := perform_tended hcalled hs depth (hcs _ (List.mem_cons_self ..))
      unfold System.finish
      split
      · rename_i hsome
        apply ih (htended hsome)
        intro r hr
        apply hcs r
        unfold System.run
        simp [hsome, hr]
      · exact hholds

end Watch

theorem World.Idle.jobless {w : World} (h : w.Idle) (P : Job → Prop) : ∀ job ∈ w.pending, P job := by
  rw [h.pending]
  exact nofun

/-! ## A locker that is sealed

Its field is written three times: by the transition that locks it, and twice by the one that this goes on with.
-/

namespace Locker

/-- The transitions of the locker run on its own field. -/
def Seals (k : StateKey) (t : Transition) : Prop :=
  k = field ∧ t ∈ sealing.allTransitions

theorem engine_spares : (engine []).Spares Seals field := by
  rintro k t ⟨rfl, ht⟩
  simp only [sealing, Process.allTransitions, Process.allTransitionsIn, List.append_nil, List.mem_cons,
    List.not_mem_nil, or_false] at ht
  rcases ht with rfl | rfl
  · simp [Transition.Obeys, Transition.commands]
  · simp [Transition.Obeys, Transition.commands, Program.All, Op.Spares, field]

def sealedCalls : List Call :=
  [.bind sealing field, .invoke 0 "lock" none .empty, .run 0, .run 0]

theorem sealed_within {w : World} {depth : Nat} :
    ∀ r ∈ (System.start w).run (engine []) depth sealedCalls, r.Within Seals := by
  intro r hr
  have hcall := System.call_mem_of_mem_run hr
  simp only [sealedCalls, List.mem_cons, List.not_mem_nil, or_false] at hcall
  unfold Report.Within
  rcases hcall with hcall | hcall | hcall | hcall <;> rw [hcall]
  · exact fun t ht => ⟨rfl, ht⟩
  · trivial
  · trivial
  · trivial

end Locker

end Workflow
