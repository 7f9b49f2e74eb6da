import Workflow.Proofs.Runs

/-!
# Custody through calls

Between two calls of a run no flight is in the hands of a call. A call that returns an error may leave one
flight behind that it started, or that of the job it ran.
-/

namespace Workflow

namespace Custody

variable {engine : Engine} {I : Custody engine} {hands : List Flight} (depth : Nat)

variable (I) in
/-- Apart from `hands`, all flights are with jobs that wait, and views remember states or are excused. -/
structure Tended (hands : List Flight) (s : System) : Prop where
  base : I.Base False hands s.world
  processes : ∀ b ∈ s.bound, b.process.Obeys I.Allows
  keys : ∀ b ∈ s.bound, I.keys b.view.key
  memos : ∀ b ∈ s.bound, (b.view.memo.isSome → ∃ state, b.view.Recalls state) ∨ I.excuse s.world

namespace Tended

variable {s : System}

theorem excusable (h : I.Tended hands s) : I.Base (I.excuse s.world) hands s.world :=
  ⟨h.base.holds, fun he => he, h.base.jobs⟩

theorem own {b : BoundProcess} (h : I.Tended hands s) (hb : b ∈ s.bound) :
    I.Own (I.excuse s.world) hands b.view.key (b.view, s.world) :=
  ⟨h.excusable, rfl, h.keys b hb, h.memos b hb⟩

theorem moved {hands' : List Flight} {w : World} (h : I.Tended hands s)
    (hw : I.Base (I.excuse s.world) hands' w) : I.Tended hands' { s with world := w } :=
  ⟨⟨hw.holds, nofun, hw.jobs⟩, h.processes, h.keys, fun b hb => (h.memos b hb).imp_right hw.past⟩

theorem viewed {hands' : List Flight} {b : BoundProcess} {i : Nat} {v : View} {w : World}
    (h : I.Tended hands s) (hb : b ∈ s.bound)
    (hw : I.Own (I.excuse s.world) hands' b.view.key (v, w)) :
    I.Tended hands' ⟨w, s.bound.set i { b with view := v }⟩ := by
  have hset (b') (hb' : b' ∈ s.bound.set i { b with view := v }) :
      b' ∈ s.bound ∨ b' = { b with view := v } := List.mem_or_eq_of_mem_set hb'
  refine ⟨⟨hw.base.holds, nofun, hw.base.jobs⟩, fun b' hb' => ?_, fun b' hb' => ?_, fun b' hb' => ?_⟩
  · rcases hset b' hb' with hb' | rfl
    · exact h.processes b' hb'
    · exact h.processes b hb
  · rcases hset b' hb' with hb' | rfl
    · exact h.keys b' hb'
    · exact (hw.onKey : v.key = b.view.key) ▸ hw.key
  · rcases hset b' hb' with hb' | rfl
    · exact (h.memos b' hb').imp_right hw.base.past
    · exact hw.memo

end Tended

/-- What a call leaves behind. -/
def Left (I : Custody engine) (r : Report) : Option (Except EngineError Unit) → Prop
  | some (.ok _) => I.Tended [] r.after
  | some (.error _) => I.Tended [] r.after ∨
    ∃ f, (I.blamed f ∨ ∃ job, r.job? = some job ∧ job.flight? = some f) ∧
      I.excuse r.after.world ∧ I.Tended [f] r.after
  | none => I.Cut r.after.world

theorem Left.returned {r : Report} {o : Option (Except EngineError Unit)} (h : I.Left r o)
    (ho : o.isSome) : ∃ hands, I.Tended hands r.after := by
  match o with
  | some (.ok _) => exact ⟨[], h⟩
  | some (.error _) =>
      rcases h with h | ⟨f, -, -, h⟩
      · exact ⟨[], h⟩
      · exact ⟨[f], h⟩

theorem Left.cut {r : Report} {o : Option (Except EngineError Unit)} (h : I.Left r o) :
    I.Cut r.after.world := by
  cases o with
  | none => exact h
  | some _ =>
      obtain ⟨hands, h⟩ := h.returned rfl
      exact ⟨hands, h.base.holds⟩

section

variable {s : System} (hs : I.Tended [] s)

include hs

theorem onBound_left {call : Call} {i : Nat} {m : BoundProcess → ViewM Unit}
    (hm : ∀ b, s.bound[i]? = some b →
      Meets (fun s' => s' = (b.view, s.world)) (m b) (fun _ => I.Own (I.excuse s.world) [] b.view.key)
        ⟨fun _ => I.Stuck (I.excuse s.world) [] b.view.key, I.Cut⟩) :
    I.Left ⟨call, s, (s.onBound i m).1, (s.onBound i m).2⟩ (s.onBound i m).1 := by
  rcases s.onBound_cases i m with heq | ⟨b, hb, ⟨r, v, w, ho, heq⟩ | ⟨w, ho, heq⟩⟩
  · rw [heq]
    exact hs
  · have hmem := List.mem_of_getElem? hb
    have hends := (hm b hb b.view s.world rfl).1 (r, v) w ho
    rw [heq]
    cases r with
    | ok _ => exact hs.viewed hmem hends
    | error _ =>
        rcases hends with hown | ⟨f, -, hblamed, he, hown⟩
        · exact .inl (hs.viewed hmem hown)
        · exact .inr ⟨f, .inl hblamed, he, hs.viewed hmem hown⟩
  · rw [heq]
    exact (hm b hb b.view s.world rfl).2 w ho

theorem onJob_left {call : Call} {place : Nat} {m : Job → EngineM (Except EngineError Unit)}
    (hcall : call = .run place ∨ call = .runDetached place)
    (hm : ∀ job f, job.Carries I.Allows I.keys f → Meets (I.Base (I.excuse s.world) [f]) (m job)
      (I.Ran (I.excuse s.world) f []) (.only I.Cut)) :
    I.Left ⟨call, s, (s.onJob place m).1, (s.onJob place m).2⟩ (s.onJob place m).1 := by
  rcases s.onJob_cases place m with heq | ⟨job, w, htake, heq⟩
  · rw [heq]
    exact hs
  · obtain ⟨queue, pool, hperm, rfl⟩ := World.takeJob_some htake
    obtain ⟨f, hjob⟩ := hs.base.jobs job (hperm.symm.mem_iff.1 (List.mem_cons_self ..))
    have hbase : I.Base (I.excuse s.world) [f] { s.world with queue := queue, pool := pool } :=
      ⟨I.taken hperm hjob.flight hs.base.holds, I.lasting List.suffix_rfl,
        fun j hj => hs.base.jobs j (hperm.symm.mem_iff.1 (List.mem_cons_of_mem _ hj))⟩
    have hran := hm job f hjob _ hbase
    rw [heq]
    cases ho : EngineM.outcome (m job) { s.world with queue := queue, pool := pool } with
    | mk o w =>
        match o with
        | none => exact hran.2 w ho
        | some (.ok _) => exact hs.moved (hran.1 _ w ho)
        | some (.error _) =>
            obtain ⟨he, h⟩ := hran.1 _ w ho
            refine .inr ⟨f, .inr ⟨job, ?_, hjob.flight⟩, he, hs.moved h⟩
            rcases hcall with rfl | rfl <;> simp [Report.job?, htake]

/-- A call of a run leaves nothing behind, unless it returns an error. -/
theorem perform_left (hengine : engine.Obeys I.Allows) {c : Call} (hc : c.Obeys I.Allows)
    (hon : c.On I.keys) (hresolved : I.resolved → c.Resolves)
    (hstale : I.resolved → ∀ i action user context b, c = .invoke i action user context →
      s.bound[i]? = some b → Faithful I.stale (b.view, s.world)) :
    I.Left (s.report engine depth c) (s.perform engine depth c).1 := by
  have hstart : I.Minds (Transition.execute engine depth) := execute_minds hengine depth
  cases c with
  | bind process key =>
      refine ⟨hs.base, fun b hb => ?_, fun b hb => ?_, fun b hb => ?_⟩ <;>
        rcases List.mem_append.1 hb with hb | hb
      · exact hs.processes b hb
      · exact List.mem_singleton.1 hb ▸ hc
      · exact hs.keys b hb
      · exact List.mem_singleton.1 hb ▸ hon
      · exact hs.memos b hb
      · exact List.mem_singleton.1 hb ▸ .inl nofun
  | invoke i action user context =>
      refine onBound_left hs fun b hb => ?_
      have hmem := List.mem_of_getElem? hb
      refine (invokeWith_meets hstart (hs.processes b hmem) action (context.withUser user)).pre ?_
      rintro _ rfl
      exact ⟨hs.own hmem, fun h => hstale h i action user context b rfl hb⟩
  | change i transition context =>
      refine onBound_left hs fun b hb => (hstart context hc fun _ h => by cases h).pre ?_
      rintro _ rfl
      exact ⟨hs.own (List.mem_of_getElem? hb), fun h => (hresolved h).elim⟩
  | run place => exact onJob_left hs (.inl rfl) fun job f hjob => job_meets hstart hengine hjob
  | runDetached place =>
      refine onJob_left hs (.inr rfl) fun job f hjob => ?_
      exact .bind (m := EngineM) (runDetached_meets hstart hengine hjob) fun _ => .pure fun _ h => h

end

end Custody

end Workflow
