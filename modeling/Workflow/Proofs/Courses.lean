import Workflow.Proofs.Engine.Underway
import Workflow.Proofs.Runs

/-!
# Courses of calls

Between two calls of a run no transition is under way, but in the jobs that wait. A call that returns leaves
it so, where a transition that an error has left behind may be given up.
-/

namespace Workflow

namespace Course

variable {engine : Engine} (I : Course engine)

/-- The call brings along nothing that is foreign to the course. -/
def Suits : Call → Prop
  | .bind process key => (process.Obeys I.allows ∧ I.roots (some process)) ∧ I.keys key
  | .invoke _ _ user context => I.travels (context.withUser user)
  | .change _ transition context => transition.Obeys I.allows ∧ I.roots none ∧ I.travels context
  | .run _ | .runDetached _ => True

/-- Jobs that wait go with transitions under way, and those that errors have left may be given up. -/
structure Called : Prop where
  taken : ∀ {w job queue pool}, w.pending.Perm (job :: (queue ++ pool)) → I.holds [] w →
    I.runs ∧ ∃ leg, job.Bears I.allows I.keys I.travels I.roots leg ∧
      I.holds [leg] { w with queue := queue, pool := pool }
  dropped : ∀ {leg w}, I.excuse w → I.holds [leg] w → I.holds [] w

structure Tended (s : System) : Prop where
  holds : I.holds [] s.world
  processes : ∀ b ∈ s.bound, b.process.Obeys I.allows ∧ I.roots (some b.process)
  keys : ∀ b ∈ s.bound, I.keys b.view.key
  memos : ∀ b ∈ s.bound, (b.view.memo.isSome → ∃ state, b.view.Recalls state) ∨ I.excuse s.world

/-- What a call leaves behind. -/
def Left (r : Option (Except EngineError Unit)) (s : System) : Prop :=
  (∃ legs, I.holds legs s.world) ∧ (r.isSome → I.Tended s)

/-- The job at the place, if there is one, goes with a transition under way. -/
def Carries (w : World) (place : Nat) : Prop :=
  ∀ job w', w.takeJob place = some (job, w') →
    I.runs ∧ ∃ leg, job.Bears I.allows I.keys I.travels I.roots leg ∧ I.holds [leg] w'

variable {I} {s : System} (hs : I.Tended s)

theorem Called.carries (hI : I.Called) {w : World} (hw : I.holds [] w) (place : Nat) : I.Carries w place := by
  intro job w' htake
  obtain ⟨queue, pool, hperm, rfl⟩ := World.takeJob_some htake
  exact hI.taken hperm hw

namespace Tended

theorem own (hs : I.Tended s) {b : BoundProcess} (hb : b ∈ s.bound) :
    I.Own (s.world.journal <:+ ·.journal) [] b.view.key (b.view, s.world) :=
  ⟨rfl, hs.keys b hb, hs.holds, ⟨List.suffix_rfl, hs.memos b hb⟩, .inl (Nat.zero_le _)⟩

theorem left (hs : I.Tended s) {r : Option (Except EngineError Unit)} : I.Left r s :=
  ⟨⟨[], hs.holds⟩, fun _ => hs⟩

theorem moved (hs : I.Tended s) {w : World} (hholds : I.holds [] w)
    (hjournal : s.world.journal <:+ w.journal) : I.Tended { s with world := w } :=
  ⟨hholds, hs.processes, hs.keys, fun b hb => (hs.memos b hb).imp_right (I.lasting hjournal)⟩

theorem viewed (hs : I.Tended s) {b : BoundProcess} {i : Nat} {v : View} {w : World} {legs : List Leg}
    (hb : b ∈ s.bound) (hw : I.Own (s.world.journal <:+ ·.journal) legs b.view.key (v, w))
    (hholds : I.holds [] w) : I.Tended ⟨w, s.bound.set i { b with view := v }⟩ := by
  obtain ⟨hjournal, hmemo⟩ := hw.base.lasts
  have hset (b') (hb' : b' ∈ s.bound.set i { b with view := v }) :
      b' ∈ s.bound ∨ b' = { b with view := v } := List.mem_or_eq_of_mem_set hb'
  refine ⟨hholds, fun b' hb' => ?_, fun b' hb' => ?_, fun b' hb' => ?_⟩
  · rcases hset b' hb' with hb' | rfl
    · exact hs.processes b' hb'
    · exact hs.processes b hb
  · rcases hset b' hb' with hb' | rfl
    · exact hs.keys b' hb'
    · exact (hw.onKey : v.key = b.view.key) ▸ hw.key
  · rcases hset b' hb' with hb' | rfl
    · exact (hs.memos b' hb').imp_right (I.lasting hjournal)
    · exact hmemo

end Tended

theorem since_lasting (w : World) : Lasting (w.journal <:+ ·.journal) :=
  fun _ _ hjournal h => h.trans hjournal

variable (hdropped : ∀ {leg w}, I.excuse w → I.holds [leg] w → I.holds [] w)

include hs hdropped

theorem onBound_left {i : Nat} {m : BoundProcess → ViewM Unit}
    (hm : ∀ b ∈ s.bound, Meets (fun s' => s' = (b.view, s.world)) (m b)
      (fun _ => I.Own (s.world.journal <:+ ·.journal) [] b.view.key)
      ⟨I.Stuck (s.world.journal <:+ ·.journal) [] b.view.key s.world.starts False,
        I.Cut (s.world.journal <:+ ·.journal)⟩) :
    I.Left (s.onBound i m).1 (s.onBound i m).2 := by
  rcases s.onBound_cases i m with heq | ⟨b, hb, ⟨r, v, w, ho, heq⟩ | ⟨w, ho, heq⟩⟩
  · rw [heq]
    exact hs.left
  · have hmem := List.mem_of_getElem? hb
    have hends := (hm b hmem b.view s.world rfl).1 (r, v) w ho
    rw [heq]
    cases r with
    | ok _ => exact (hs.viewed hmem hends hends.holds).left
    | error _ =>
        rcases hends with ⟨hown, -⟩ | ⟨leg, -, -, hsick⟩
        · exact (hs.viewed hmem hown hown.holds).left
        · exact (hs.viewed hmem hsick.own (hdropped hsick.excuse hsick.own.holds)).left
  · rw [heq]
    exact ⟨((hm b (List.mem_of_getElem? hb) b.view s.world rfl).2 w ho).1, nofun⟩

theorem onJob_left {place : Nat} {m : Job → EngineM (Except EngineError Unit)} (hplace : I.Carries s.world place)
    (hm : ∀ leg job, I.runs → job.Bears I.allows I.keys I.travels I.roots leg →
      Meets (I.Base (s.world.journal <:+ ·.journal) [leg]) (m job)
        (I.Ran (s.world.journal <:+ ·.journal) leg.flight [])
        (.only (I.Cut (s.world.journal <:+ ·.journal)))) :
    I.Left (s.onJob place m).1 (s.onJob place m).2 := by
  rcases s.onJob_cases place m with heq | ⟨job, w, htake, heq⟩
  · rw [heq]
    exact hs.left
  · obtain ⟨hruns, leg, hjob, hholds⟩ := hplace job w htake
    obtain ⟨queue, pool, -, rfl⟩ := World.takeJob_some htake
    have hran := hm leg job hruns hjob { s.world with queue := queue, pool := pool }
      ⟨hholds, List.suffix_rfl, .inl (Nat.le_refl _)⟩
    rw [heq]
    cases ho : EngineM.outcome (m job) { s.world with queue := queue, pool := pool } with
    | mk o w =>
        match o with
        | none => exact ⟨(hran.2 w ho).1, nofun⟩
        | some (.ok _) =>
            have h := hran.1 _ w ho
            exact (hs.moved h.holds h.lasts).left
        | some (.error _) =>
            obtain ⟨-, hexcuse, -, leg', -, h⟩ := hran.1 _ w ho
            exact (hs.moved (hdropped hexcuse h.holds) h.lasts).left

/-- What a call leaves behind is known, where this goes for the job that it takes. -/
theorem perform_leaves (hengine : engine.Obeys I.allows) (depth : Nat) {c : Call} (hc : I.Suits c)
    (hplace : ∀ place, c = .run place ∨ c = .runDetached place → I.Carries s.world place) :
    I.Left (s.perform engine depth c).1 (s.perform engine depth c).2 := by
  have hstart : I.Minds (Transition.execute engine depth) := execute_minds hengine depth
  have hsince := since_lasting s.world
  cases c with
  | bind process key =>
      refine Tended.left (s := { s with bound := s.bound ++ [.fresh process key] })
        ⟨hs.holds, fun b hb => ?_, fun b hb => ?_, fun b hb => ?_⟩ <;>
          rcases List.mem_append.1 hb with hb | hb
      · exact hs.processes b hb
      · exact List.mem_singleton.1 hb ▸ hc.1
      · exact hs.keys b hb
      · exact List.mem_singleton.1 hb ▸ hc.2
      · exact hs.memos b hb
      · exact .inl fun h => by cases List.mem_singleton.1 hb; cases h
  | invoke i action user context =>
      refine onBound_left hs hdropped fun b hb => ?_
      obtain ⟨hobeys, hroot⟩ := hs.processes b hb
      refine (invokeWith_meets hstart hsince hobeys hroot action hc (.inl rfl) s.world.starts).pre ?_
      rintro _ rfl
      exact ⟨hs.own hb, rfl⟩
  | change i transition context =>
      refine onBound_left hs hdropped fun b hb => ?_
      refine (hstart s.world.starts False hsince hc.1 (fun _ h => by cases h) hc.2.1 hc.2.2).pre ?_
      rintro _ rfl
      exact ⟨hs.own hb, fun _ h => (nomatch h), .inl rfl, rfl, False.elim⟩
  | run place =>
      refine onJob_left hs hdropped (hplace place (.inl rfl)) fun leg job hruns hjob => ?_
      exact job_meets hstart hengine hsince hjob hruns
  | runDetached place =>
      refine onJob_left hs hdropped (hplace place (.inr rfl)) fun leg job hruns hjob => ?_
      exact .bind (m := EngineM) (runDetached_meets hstart hengine hsince hjob hruns)
        fun _ => .pure fun _ h => h

omit hs hdropped in
theorem perform_left (hI : I.Called) (hs : I.Tended s) (hengine : engine.Obeys I.allows) (depth : Nat) {c : Call}
    (hc : I.Suits c) : I.Left (s.perform engine depth c).1 (s.perform engine depth c).2 :=
  perform_leaves hs hI.dropped hengine depth hc fun place _ => hI.carries hs.holds place

end Course

end Workflow
