import Mathlib.Data.List.Nodup
import Workflow.Proofs.Calls

/-!
# Mutual exclusion

In a run whose commands leave locks alone, transitions in flight never share a lock, each of them has its
lock from its start to its unlock, and no two jobs that wait have the same key. Faults, executors and
transitions started by commands do not matter, nor does it matter how far the run gets.
-/

namespace Workflow

def Flight.lock (lockPrefix : String) (f : Flight) : String :=
  f.key.lockKey lockPrefix

def Job.lock (lockPrefix : String) (job : Job) : String :=
  job.key.lockKey lockPrefix

theorem Job.lock_of_flight {p : String} {job : Job} {f : Flight} (h : job.flight? = some f) :
    f.lock p = job.lock p := by
  obtain ⟨-, -, -, hf⟩ := Job.finish_of_flight h
  rw [hf]
  rfl

/-- The transitions in flight have locks of their own, and jobs that wait are of different flights. -/
structure Scene.Exclusive (lockPrefix : String) (s : Scene) : Prop where
  apart : (s.flights.map (Flight.lock lockPrefix)).Nodup
  held : ∀ f ∈ s.flights, s.locks.isHeld (f.lock lockPrefix) = true
  aboard : ∀ job ∈ s.pending, ∃ f ∈ s.flights, job.flight? = some f
  single : (s.pending.map (Job.lock lockPrefix)).Nodup

namespace Scene.Exclusive

variable {lockPrefix : String} {s s' : Scene}

theorem keys (h : s.Exclusive lockPrefix) : (s.flights.map Flight.key).Nodup :=
  List.Nodup.of_map (fun k => k.lockKey lockPrefix) (by rw [List.map_map]; exact h.apart)

theorem jobKeys (h : s.Exclusive lockPrefix) : (s.pending.map Job.key).Nodup :=
  List.Nodup.of_map (fun k => k.lockKey lockPrefix) (by rw [List.map_map]; exact h.single)

theorem congr (h : s.Exclusive lockPrefix) (hflights : s'.flights = s.flights)
    (hlocks : s'.locks = s.locks) (hpending : s'.pending = s.pending) : s'.Exclusive lockPrefix := by
  obtain ⟨hapart, hheld, haboard, hsingle⟩ := h
  exact ⟨hflights ▸ hapart, hflights ▸ hlocks ▸ hheld, hflights ▸ hpending ▸ haboard, hpending ▸ hsingle⟩

end Scene.Exclusive

/-- Exclusion with some flights in the hands of the calls that run. -/
structure Exclusion (lockPrefix : String) (hands : List Flight) (w : World) : Prop where
  now : w.toScene.Exclusive lockPrefix
  before : ∀ m ∈ w.journal, m.scene.Exclusive lockPrefix
  /-- A lock is a matter of one call or of one job that waits. -/
  own : (hands.map (Flight.lock lockPrefix) ++ w.pending.map (Job.lock lockPrefix)).Nodup
  kept : ∀ f ∈ hands, w.locks.isHeld (f.lock lockPrefix) = true
  alone : ∀ f ∈ hands, ∀ g ∈ w.flights, g.lock lockPrefix = f.lock lockPrefix → g = f

namespace Exclusion

variable {p : String} {hands : List Flight} {f : Flight} {w w' : World}

theorem congr (h : Exclusion p hands w) (hflights : w'.flights = w.flights) (hlocks : w'.locks = w.locks)
    (hpending : w'.pending = w.pending) (hjournal : w'.journal = w.journal) : Exclusion p hands w' where
  now := h.now.congr hflights hlocks hpending
  before := hjournal ▸ h.before
  own := hpending ▸ h.own
  kept := hlocks ▸ h.kept
  alone := hflights ▸ h.alone

theorem recorded (h : Exclusion p hands w) (e : Entry) : Exclusion p hands (w.record e) where
  now := h.now
  before := List.forall_mem_cons.2 ⟨h.now, h.before⟩
  own := h.own
  kept := h.kept
  alone := h.alone

theorem noted (h : Exclusion p hands w) {e : Entry} (hflights : w'.flights = w.flights := by rfl)
    (hlocks : w'.locks = w.locks := by rfl) (hpending : w'.pending = w.pending := by rfl)
    (hjournal : w'.journal = w.journal := by rfl) : Exclusion p hands (w'.record e) :=
  (h.congr hflights hlocks hpending hjournal).recorded e

theorem dropped (h : Exclusion p (f :: hands) w) : Exclusion p hands w where
  now := h.now
  before := h.before
  own := (List.nodup_cons.1 h.own).2
  kept g hg := h.kept g (List.mem_cons_of_mem f hg)
  alone g hg := h.alone g (List.mem_cons_of_mem f hg)

theorem foreign (h : Exclusion p hands w) (hf : f ∈ hands) {job : Job} (hjob : job ∈ w.pending) :
    job.lock p ≠ f.lock p := fun heq =>
  (List.nodup_append.1 h.own).2.2 _ (List.mem_map_of_mem hf) _ (List.mem_map_of_mem hjob) heq.symm

theorem other (h : Exclusion p (f :: hands) w) {g : Flight} (hg : g ∈ hands) : g.lock p ≠ f.lock p :=
  fun heq => (List.nodup_cons.1 h.own).1 <|
    List.mem_append_left _ (heq ▸ List.mem_map_of_mem hg)

theorem landed (h : Exclusion p (f :: hands) w) : Exclusion p (f :: hands) (w.land f) := by
  refine recorded ?_ _
  have hsub {g : Flight} (hg : g ∈ w.flights.filter (· ≠ f)) : g ∈ w.flights := List.mem_of_mem_filter hg
  refine ⟨⟨?_, fun g hg => h.now.held g (hsub hg), fun job hjob => ?_, h.now.single⟩, h.before, h.own,
    h.kept, fun g hg g' hg' => h.alone g hg g' (hsub hg')⟩
  · exact (List.filter_sublist.map _).nodup h.now.apart
  · obtain ⟨g, hg, hflight⟩ := h.now.aboard job hjob
    refine ⟨g, List.mem_filter.2 ⟨hg, decide_eq_true fun heq => ?_⟩, hflight⟩
    exact h.foreign (List.mem_cons_self ..) hjob (heq ▸ (Job.lock_of_flight hflight).symm)

theorem unlocked (h : Exclusion p (f :: hands) w) (hf : f ∉ w.flights) :
    Exclusion p hands (w.unlock (f.lock p)) := by
  refine recorded ?_ _
  have hne {g : Flight} (hg : g ∈ w.flights) : g.lock p ≠ f.lock p := fun heq =>
    hf (h.alone f (List.mem_cons_self ..) g hg heq ▸ hg)
  refine ⟨⟨h.now.apart, fun g hg => ?_, h.now.aboard, h.now.single⟩, h.before, h.dropped.own,
    fun g hg => ?_, h.dropped.alone⟩
  · exact (w.locks.isHeld_release_ne (hne hg)).trans (h.now.held g hg)
  · exact (w.locks.isHeld_release_ne (h.other hg)).trans (h.dropped.kept g hg)

theorem locked (h : Exclusion p hands w) (lockKey : String) {ttl : Nat} (httl : ttl ≠ 0) :
    Exclusion p hands (w.lock lockKey ttl) := by
  refine recorded ?_ _
  have hmono {other : String} (ho : w.locks.isHeld other = true) :
      (w.locks.acquire lockKey ttl).2.isHeld other = true := by
    by_cases heq : other = lockKey
    · exact heq ▸ w.locks.isHeld_acquire_self _ httl
    · exact (w.locks.isHeld_acquire_ne ttl heq).trans ho
  exact ⟨⟨h.now.apart, fun g hg => hmono (h.now.held g hg), h.now.aboard, h.now.single⟩, h.before, h.own,
    fun g hg => hmono (h.kept g hg), h.alone⟩

theorem started (h : Exclusion p hands w) (s : Started) (hnumber : s.number = w.starts) {ttl : Nat}
    (httl : ttl ≠ 0) (hfree : w.locks.isHeld (s.key.lockKey p) = false) :
    Exclusion p (s.flight :: hands)
      (((w.lock (s.key.lockKey p) ttl).takeOff s.key).record (.started s)) := by
  refine recorded ?_ _
  have hlocked := h.locked (s.key.lockKey p) httl
  have hnew : (⟨w.starts, s.key⟩ : Flight) = s.flight := by rw [Started.flight, hnumber]
  have hheld : (w.locks.acquire (s.key.lockKey p) ttl).2.isHeld (s.flight.lock p) = true :=
    w.locks.isHeld_acquire_self _ httl
  -- This lock was free: whoever holds a lock holds another one.
  have hne {g : Flight} (hg : w.locks.isHeld (g.lock p) = true) : g.lock p ≠ s.flight.lock p := fun heq => by
    rw [heq, Flight.lock, Started.flight, hfree] at hg
    cases hg
  refine ⟨⟨?_, ?_, ?_, h.now.single⟩, hlocked.before, ?_, ?_, ?_⟩
  · refine List.nodup_cons.2 ⟨fun hmem => ?_, h.now.apart⟩
    obtain ⟨g, hg, heq⟩ := List.mem_map.1 hmem
    exact hne (h.now.held g hg) (hnew ▸ heq)
  · exact List.forall_mem_cons.2 ⟨hnew ▸ hheld, hlocked.now.held⟩
  · intro job hjob
    obtain ⟨g, hg, hflight⟩ := h.now.aboard job hjob
    exact ⟨g, List.mem_cons_of_mem _ hg, hflight⟩
  · refine List.nodup_cons.2 ⟨fun hmem => ?_, h.own⟩
    rcases List.mem_append.1 hmem with hmem | hmem
    · obtain ⟨g, hg, heq⟩ := List.mem_map.1 hmem
      exact hne (h.kept g hg) heq
    · obtain ⟨job, hjob, heq⟩ := List.mem_map.1 hmem
      obtain ⟨g, hg, hflight⟩ := h.now.aboard job hjob
      exact hne (h.now.held g hg) ((Job.lock_of_flight hflight).trans heq)
  · exact List.forall_mem_cons.2 ⟨hheld, hlocked.kept⟩
  · refine List.forall_mem_cons.2 ⟨List.forall_mem_cons.2 ⟨fun _ => hnew, fun g hg heq => ?_⟩,
      fun f hf => List.forall_mem_cons.2 ⟨fun heq => ?_, h.alone f hf⟩⟩
    · exact absurd heq (hne (h.now.held g hg))
    · exact absurd heq.symm (hnew ▸ hne (h.kept f hf))

theorem waits (h : Exclusion p (f :: hands) w) {job : Job} (hflight : job.flight? = some f)
    (hf : f ∈ w.flights) (hflights : w'.flights = w.flights) (hlocks : w'.locks = w.locks)
    (hpending : w'.pending.Perm (job :: w.pending)) (hjournal : w'.journal = w.journal) :
    Exclusion p hands w' := by
  have hown : (hands.map (Flight.lock p) ++ w'.pending.map (Job.lock p)).Nodup := by
    refine (((hpending.map _).append_left _).trans List.perm_middle).nodup_iff.2 ?_
    exact Job.lock_of_flight hflight ▸ h.own
  have hdropped := h.dropped
  refine ⟨⟨hflights ▸ h.now.apart, hflights ▸ hlocks ▸ h.now.held, fun j hj => ?_, hown.of_append_right⟩,
    hjournal ▸ h.before, hown, hlocks ▸ hdropped.kept, hflights ▸ hdropped.alone⟩
  rw [hflights]
  cases List.mem_cons.1 (hpending.mem_iff.1 hj) with
  | inl heq => exact ⟨f, hf, heq ▸ hflight⟩
  | inr hj => exact h.now.aboard j hj

theorem taken (h : Exclusion p hands w) {job : Job} (hflight : job.flight? = some f)
    (hflights : w'.flights = w.flights) (hlocks : w'.locks = w.locks)
    (hpending : w.pending.Perm (job :: w'.pending)) (hjournal : w'.journal = w.journal) :
    Exclusion p (f :: hands) w' := by
  have hown : ((f :: hands).map (Flight.lock p) ++ w'.pending.map (Job.lock p)).Nodup := by
    rw [List.map_cons, Job.lock_of_flight hflight]
    exact (((hpending.map _).append_left _).trans List.perm_middle).nodup_iff.1 h.own
  have hf : f ∈ w.flights := by
    obtain ⟨g, hg, heq⟩ := h.now.aboard job (hpending.mem_iff.2 (List.mem_cons_self ..))
    exact Option.some.inj (hflight.symm.trans heq) ▸ hg
  refine ⟨⟨hflights ▸ h.now.apart, hflights ▸ hlocks ▸ h.now.held, fun j hj => ?_, hown.of_append_right⟩,
    hjournal ▸ h.before, hown, ?_, ?_⟩
  · exact hflights ▸ h.now.aboard j (hpending.mem_iff.2 (List.mem_cons_of_mem _ hj))
  · exact hlocks ▸ List.forall_mem_cons.2 ⟨h.now.held f hf, h.kept⟩
  · rw [hflights]
    exact List.forall_mem_cons.2
      ⟨fun g hg heq => List.inj_on_of_nodup_map h.now.apart hg hf heq, h.alone⟩

end Exclusion

/-- The custody that keeps exclusion. It has nothing to say about errors. -/
def exclusion (engine : Engine) (httl : engine.config.lockTtl ≠ 0) : Custody engine where
  holds := Exclusion engine.config.lockPrefix
  keys _ := True
  excuse _ := True
  blamed _ := True
  invokes := True
  resolved := False
  stale _ _ _ := True
  excused _ := .inr trivial
  lasting _ _ := trivial
  struck _ h := h.congr rfl rfl rfl rfl
  remarked _ h := h.recorded _
  wrote _ h := h.noted
  removed _ _ h := h.noted
  emitted _ h := h.noted
  started s _ hnumber h _ hfree := ⟨trivial, h.started s hnumber httl hfree⟩
  landed h := h.landed
  unlocked hf h := h.unlocked hf
  queued job hflight hf h := h.waits hflight hf rfl rfl (by simp [Scene.pending, List.perm_middle]) rfl
  pooled job hflight hf h := h.waits hflight hf rfl rfl
    (by rw [Scene.pending, ← List.append_assoc]; exact List.perm_append_singleton _ _) rfl
  taken hpending hflight h := h.taken hflight rfl rfl hpending rfl
  switched _ h := h.congr rfl rfl rfl rfl
  reported _ _ _ h := h.dropped.noted
  everywhere _ _ := trivial
  pardoned _ _ := trivial
  dropped _ _ _ _ h := h.dropped

theorem Exclusion.of_idle {p : String} {w : World} (h : w.Idle) : Exclusion p [] w := by
  have hpending : w.toScene.pending = [] := h.pending
  refine ⟨⟨?_, ?_, ?_, ?_⟩, ?_, ?_, nofun, nofun⟩ <;> simp [h.flights, h.journal, hpending]

namespace System

variable {engine : Engine} {depth : Nat} {cs : List Call} {w : World}

theorem start_exclusive (httl : engine.config.lockTtl ≠ 0) (hw : w.Idle) :
    (exclusion engine httl).Tended [] (start w) := by
  refine ⟨⟨.of_idle hw, nofun, ?_⟩, nofun, nofun, nofun⟩
  rw [show (start w).world.toScene.pending = [] from hw.pending]
  exact nofun

theorem perform_exclusive (httl : engine.config.lockTtl ≠ 0) (hengine : engine.Obeys (Op.Allowed True))
    {s : System} (hs : (exclusion engine httl).Tended [] s) {c : Call} (hc : c.Obeys (Op.Allowed True))
    (hsome : (s.perform engine depth c).1.isSome) :
    (exclusion engine httl).Tended [] (s.perform engine depth c).2 := by
  have hleft := Custody.perform_left depth hs hengine hc (by cases c <;> trivial) nofun nofun
  match hresult : (s.perform engine depth c).1 with
  | none => rw [hresult] at hsome; cases hsome
  | some (.ok _) => rw [hresult] at hleft; exact hleft
  | some (.error _) =>
      rw [hresult] at hleft
      -- The flight that an error leaves keeps its lock, but nobody is going to unlock it.
      rcases hleft with hleft | ⟨f, -, -, hleft⟩
      · exact hleft
      · exact ⟨⟨hleft.base.holds.dropped, nofun, hleft.base.jobs⟩, hleft.processes, hleft.keys,
          hleft.memos⟩

/--
In a run of calls from an idle world, at each moment up to the end: the transitions in flight have locks of
their own, which they hold, and there is one at most on a field; each job that waits is that of one of them,
and one at most waits for a field.
-/
theorem run_exclusive (httl : engine.config.lockTtl ≠ 0) (hw : w.Idle)
    (hengine : engine.Obeys (Op.Allowed True)) (hcs : ∀ c ∈ cs, c.Obeys (Op.Allowed True)) :
    ∀ scene ∈ ((start w).finish engine depth cs).world.scenes,
      scene.Exclusive engine.config.lockPrefix ∧ (scene.flights.map Flight.key).Nodup ∧
        (scene.pending.map Job.key).Nodup := by
  let I := exclusion engine httl
  have hscenes {hands : List Flight} {s : System} (h : I.holds hands s.world) :
      ∀ scene ∈ s.world.scenes, scene.Exclusive engine.config.lockPrefix := by
    refine List.forall_mem_cons.2 ⟨h.now, fun scene hscene => ?_⟩
    obtain ⟨m, hm, rfl⟩ := List.mem_map.1 hscene
    exact h.before m hm
  have hstep (past : List Report) (s : System) (c : Call) (hc : c ∈ cs) (hs : I.Tended [] s) :
      I.Left (s.report engine depth c) (s.perform engine depth c).1 :=
    Custody.perform_left depth hs hengine (hcs c hc) (by cases c <;> trivial) nofun nofun
  have hfinish := finish_induction engine depth cs []
    (J := fun _ s => I.Tended [] s)
    (K := fun s => ∀ scene ∈ s.world.scenes, scene.Exclusive engine.config.lockPrefix)
    (fun _ s hs => hscenes hs.base.holds) ?_ ?_ (s := start w) ?_
  · intro scene hscene
    have hexclusive := hfinish.1 scene hscene
    exact ⟨hexclusive, hexclusive.keys, hexclusive.jobKeys⟩
  · exact fun past s c hc hs hsome => perform_exclusive httl hengine hs (hcs c hc) hsome
  · intro past s c hc hs hnone
    obtain ⟨_, h⟩ := (hstep past s c hc hs).cut
    exact hscenes h
  · exact start_exclusive httl hw

/-- A side effect that asks for the action that it is part of. -/
def lockAgain : Command :=
  ⟨"lock_again", .call (.invoke "locker" Locker.field "lock" []) fun _ => .pure (.ok ())⟩

theorem locker_exclusive :
    ((start (Locker.world .queue)).finish (Locker.engine [lockAgain]) 4
      (Locker.calls [lockAgain])).world.starts = 2 ∧
    ∀ scene ∈ ((start (Locker.world .queue)).finish (Locker.engine [lockAgain]) 4
        (Locker.calls [lockAgain])).world.scenes,
      scene.Exclusive Config.standard.lockPrefix ∧ (scene.flights.map Flight.key).Nodup ∧
        (scene.pending.map Job.key).Nodup := by
  have hcommands : ∀ c ∈ [lockAgain], c.body.All (Op.Allowed True) :=
    List.forall_mem_singleton.2 ⟨trivial, fun _ => trivial⟩
  refine ⟨by decide +kernel, ?_⟩
  exact run_exclusive (by decide) ⟨rfl, rfl, rfl⟩ (Locker.engine_obeys hcommands)
    (Locker.calls_obey hcommands)

end System

end Workflow
