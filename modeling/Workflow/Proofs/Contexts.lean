import Workflow.Proofs.Courses
import Workflow.Proofs.Engine.Passages
import Workflow.Proofs.Engine.Waiting

/-!
# The way of a context

An invocation may be over with its call, or go on in jobs that wait, behind one another, while other calls are made
and other jobs are run. All the way, each of its commands gets the caller of the invocation and the data that the
commands before it have inserted, and only those that follow a failed side effect are told of a failure.
-/

namespace Workflow

/-! ## Threads -/

namespace Report

/-- The calls of commands, the earliest first. -/
def calls (r : Report) : List Moment :=
  r.after.world.calls.drop r.before.world.calls.length

/-- The transitions that were started, the earliest first. -/
def starts (r : Report) : List Transition :=
  r.after.world.transitions.drop r.before.world.transitions.length

/-- The number of a transition that was started in the call and waits behind it. -/
def leaves? (r : Report) : Option Nat :=
  (r.after.world.pending.filterMap Job.number?).find? (r.before.world.starts ≤ ·)

/-- The reports of the job of that number, and of those that it leaves. -/
def follow : Option Nat → List Report → List Report
  | none, _ => []
  | some _, [] => []
  | some n, r :: rs =>
    if r.job?.bind Job.number? = some n then r :: follow r.leaves? rs else follow (some n) rs

/-- The first of the reports, and those of the jobs that it leaves. -/
def thread : List Report → List Report
  | [] => []
  | r :: rs => r :: follow r.leaves? rs

theorem calls_eq {r : Report} {new : List Moment} (h : r.after.world.calls = r.before.world.calls ++ new) :
    r.calls = new := by
  rw [calls, h, List.drop_left]

theorem starts_eq {r : Report} {new : List Transition}
    (h : r.after.world.transitions = r.before.world.transitions ++ new) : r.starts = new := by
  rw [starts, h, List.drop_left]

theorem follow_nil (n? : Option Nat) : follow n? [] = [] := by
  cases n? <;> rfl

section

variable {r : Report} {w : World} {n? : Option Nat} {jobs : List Job}

/-- No job was put up in the call. -/
theorem leaves?_eq_none (h : w.Numbered n? jobs) (hstarts : r.before.world.starts = w.starts)
    (hpending : r.after.world.pending = w.pending) : r.leaves? = none := by
  refine List.find?_eq_none.2 fun n hn => ?_
  obtain ⟨job, hjob, hnumber⟩ := List.mem_filterMap.1 hn
  obtain ⟨n', hlt, hn'⟩ := h.numbered job (hpending ▸ hjob)
  obtain rfl := Option.some.inj (hnumber.symm.trans hn')
  simpa [hstarts] using hlt

/-- One job was put up in the call. -/
theorem leaves?_eq_some {n : Nat} {job : Job} (h : w.Numbered n? jobs) (hstarts : r.before.world.starts = w.starts)
    (hperm : r.after.world.pending.Perm (job :: w.pending)) (hjob : job.number? = some n) (hle : w.starts ≤ n) :
    r.leaves? = some n := by
  have hmem : n ∈ r.after.world.pending.filterMap Job.number? :=
    List.mem_filterMap.2 ⟨job, hperm.mem_iff.2 (List.mem_cons_self ..), hjob⟩
  have hsome : r.leaves?.isSome := List.find?_isSome.2 ⟨n, hmem, decide_eq_true (hstarts.symm ▸ hle)⟩
  obtain ⟨n', hn'⟩ := Option.isSome_iff_exists.1 hsome
  obtain ⟨job', hjob', hnumber⟩ := List.mem_filterMap.1 (List.mem_of_find?_eq_some hn')
  have hnew : w.starts ≤ n' := by simpa [hstarts] using List.find?_some hn'
  rcases List.mem_cons.1 (hperm.mem_iff.1 hjob') with rfl | hjob'
  · exact hn'.trans (hnumber.symm.trans hjob)
  · obtain ⟨m, hlt, hm⟩ := h.numbered job' hjob'
    obtain rfl := Option.some.inj (hm.symm.trans hnumber)
    omega

end

end Report

/-! ## Other calls -/

section

variable {engine : Engine} {n? : Option Nat} {jobs : List Job} {s : System}

theorem numbering_tended (h : s.world.Numbered n? jobs) : (numbering engine n? jobs).Tended s where
  holds := ⟨h, List.forall_mem_nil _⟩
  processes _ _ := ⟨fun _ _ c _ => c.body.all_true, trivial⟩
  keys _ _ := trivial
  memos _ _ := .inr trivial

theorem numbering_carries {w : World} {place : Nat} (h : w.Numbered n? jobs)
    (hother : ∀ job w', w.takeJob place = some (job, w') → ∀ m, job.number? = some m → m ∉ n?) :
    (numbering engine n? jobs).Carries w place := by
  intro job w' htake
  obtain ⟨queue, pool, hperm, rfl⟩ := World.takeJob_some htake
  obtain ⟨m, hlt, hnumber⟩ := h.numbered job (hperm.mem_iff.2 (List.mem_cons_self ..))
  obtain ⟨f, hf, rfl⟩ := Option.map_eq_some_iff.1 hnumber
  obtain ⟨t, root, hcontinuation, -⟩ := Job.finish_of_flight hf
  have hne := hother job _ htake _ hnumber
  refine ⟨trivial, ⟨f, t, (⟨none⟩ : Opening).kinds⟩, ?_, h.take hnumber hne hperm, ?_⟩
  · exact ⟨⟨hf, trivial, fun c _ => c.body.all_true, fun _ _ _ _ c _ => c.body.all_true,
      fun _ _ _ _ _ _ c _ => c.body.all_true⟩, ⟨_, rfl⟩, trivial, root, hcontinuation, trivial⟩
  · exact List.forall_mem_singleton.2 ⟨hlt, hne⟩

/-- A call that does not take the job of the number leaves it as it is. -/
theorem World.Numbered.perform (h : s.world.Numbered n? jobs) (depth : Nat) {c : Call}
    (hother : ∀ m, (s.report engine depth c).job?.bind Job.number? = some m → m ∉ n?) :
    (s.perform engine depth c).2.world.Numbered n? jobs := by
  have hengine : engine.Obeys (numbering engine n? jobs).allows := fun _ _ _ _ c _ => c.body.all_true
  have hsuits : (numbering engine n? jobs).Suits c := by
    cases c with
    | bind process key => exact ⟨⟨fun _ _ c _ => c.body.all_true, trivial⟩, trivial⟩
    | change i t context => exact ⟨fun c _ => c.body.all_true, trivial, trivial⟩
    | _ => trivial
  have hleft := Course.perform_leaves (numbering_tended h) (fun _ h => Besides.drop h) hengine depth hsuits
    fun place hplace => numbering_carries h fun job w' htake m hm => hother m ?_
  · obtain ⟨⟨legs, hholds⟩, -⟩ := hleft
    exact hholds.toNumbered
  · have hjob : (s.report engine depth c).job? = some job := by
      rcases hplace with rfl | rfl <;> simp [System.report, Report.job?, htake]
    rw [hjob]
    exact hm

end

/-! ## From call to call -/

/-- The world in which a computation ends or is cut off. -/
theorem EngineM.meets_left {α : Type} {m : EngineM α} {P Q : World → Prop} (h : Meets P m (fun _ => Q) (.only Q))
    {w : World} (hw : P w) : Q (m.outcome w).2 := by
  obtain ⟨hends, hcut⟩ := h w hw
  cases ho : m.outcome w with
  | mk a w' =>
      cases a with
      | none => exact hcut w' ho
      | some a => exact hends a w' ho

namespace Venture

/-- Between calls, all that was called and started so far belongs to the passages. -/
structure Stands (r : Venture) (ps : List Passage) : Prop
    extends Passage.Itinerary r.engine r.start r.root r.action ps where
  flow : Told.Flow r.engine r.start r.origin (ps.flatMap Passage.told)
  calls : (ps.flatMap Passage.told).map Told.moment = r.calls
  transitions : ps.map Passage.transition = r.transitions

/-- Besides, if a job of the invocation waits, it is the one of that number, for the last of its transitions. -/
structure Pursued (r : Venture) (n? : Option Nat) (ps : List Passage) (s : System) : Prop extends r.Stands ps where
  waits : ∃ jobs, s.world.Numbered n? jobs ∧ ∀ n ∈ n?, ∃ qs t k,
    ps = qs ++ [.ofStart t] ∧ jobs = [t.job k (r.here ps) (some r.root) n]

/-- What came to the invocation in the call. -/
def report (r : Venture) (p : Report) : Venture :=
  { r with calls := r.calls ++ p.calls, transitions := r.transitions ++ p.starts }

def reports (r : Venture) (ps : List Report) : Venture :=
  { r with calls := r.calls ++ ps.flatMap Report.calls, transitions := r.transitions ++ ps.flatMap Report.starts }

theorem reports_nil (r : Venture) : r.reports [] = r := by
  simp [reports]

theorem reports_cons (r : Venture) (p : Report) (ps : List Report) :
    r.reports (p :: ps) = (r.report p).reports ps := by
  simp [reports, report]

variable {r : Venture} {n? : Option Nat} {jobs : List Job} {ps : List Passage} {s : System} {t : Transition}
  {depth : Nat} {c : Call}

/-- When a call begins, nothing has come to the invocation in it. -/
theorem Stands.on (h : r.Stands ps) {l : Ledger} : ({ r with base := l } : Venture).On ps l where
  toItinerary := h.toItinerary
  flow := h.flow
  calls := ⟨[], (List.append_nil _).symm, h.calls.trans (List.append_nil _).symm⟩
  transitions := ⟨[], (List.append_nil _).symm, h.transitions.trans (List.append_nil _).symm⟩
  starts := le_rfl
  pending := rfl

/-- When a call is over, at most one job of the invocation waits, and it is the last that was put up. -/
theorem Over.pursued {p : Report} {w : World}
    (h : ({ r with base := w.ledger } : Venture).Over p.after.world.ledger)
    (hcalls : p.before.world.calls = w.calls) (htransitions : p.before.world.transitions = w.transitions)
    (hstarts : p.before.world.starts = w.starts) (hnumbered : w.Numbered n? jobs) :
    ∃ qs, (r.report p).Pursued p.leaves? qs p.after := by
  obtain ⟨qs, hjourney, hpending⟩ := h
  have hstands : (r.report p).Stands qs := by
    obtain ⟨new, hnew, htold⟩ := hjourney.calls
    obtain ⟨new', hnew', hpassed⟩ := hjourney.transitions
    refine ⟨hjourney.toItinerary, hjourney.flow, htold.trans ?_, hpassed.trans ?_⟩
    · rw [report, Report.calls_eq (hnew.trans (congrArg (· ++ new) hcalls.symm))]
    · rw [report, Report.starts_eq (hnew'.trans (congrArg (· ++ new') htransitions.symm))]
  have hlater : w.starts ≤ p.after.world.starts := hjourney.starts
  refine ⟨qs, hstands, ?_⟩
  rcases hpending with hpending | ⟨ps, t, k, n, rfl, hperm, hn, hle⟩
  · change p.after.world.pending = w.pending at hpending
    rw [Report.leaves?_eq_none hnumbered hstarts hpending]
    refine ⟨[], ⟨fun job hjob => ?_, nofun⟩, nofun⟩
    obtain ⟨n, hlt, hnumber⟩ := hnumbered.numbered job (hpending ▸ hjob)
    exact ⟨n, hlt.trans_le hlater, hnumber⟩
  · rw [Report.leaves?_eq_some hnumbered hstarts hperm rfl hle]
    refine ⟨_, hnumbered.added rfl hle (Nat.lt_of_succ_le (Nat.le_of_eq hn)) hperm, fun m hm => ?_⟩
    cases hm
    exact ⟨ps, t, k, rfl, rfl⟩

section

variable (hclean : r.origin.failure = none) (hobeys : r.root.Obeys (·.isInvoke = false))

include hclean hobeys

/-- The job of the invocation is run, as an executor does it or apart from one. -/
theorem Stands.onJob (h : r.Stands (ps ++ [.ofStart t])) {m : Job → EngineM (Except EngineError Unit)} {k : StateKey}
    {n place : Nat} {w : World} (htake : s.world.takeJob place = some (t.job k (r.here ps) (some r.root) n, w))
    (hm : m = (·.run r.engine (Transition.execute r.engine depth)) ∨ m = fun job => do
      job.runDetached r.engine (Transition.execute r.engine depth)
      return .ok ()) :
    ({ r with base := w.ledger } : Venture).Over (s.onJob place m).2.world.ledger := by
  let r' : Venture := { r with base := w.ledger }
  have hclean' : r'.origin.failure = none := hclean
  have ht : t.Obeys (·.isInvoke = false) := hobeys t (h.within (.ofStart t) (by simp)).1
  have hstarts : r'.Starts (Transition.execute r.engine depth) := execute_starts hclean' hobeys depth
  have hruns : Meets (fun w => r'.On (ps ++ [.ofStart t]) w.ledger) (m (t.job k (r.here ps) (some r.root) n))
      (fun _ w => r'.Over w.ledger) (.only fun w => r'.Over w.ledger) := by
    rcases hm with rfl | rfl
    · exact run_flows hclean' hstarts ht k n
    · exact .bind (m := EngineM) (runDetached_flows hclean' hstarts ht k n) fun _ => .pure fun _ h => h
  have hleft := EngineM.meets_left hruns h.on
  simpa [System.onJob, htake] using hleft

theorem Pursued.runs {n : Nat} (h : r.Pursued (some n) ps s)
    (hown : (s.report r.engine depth c).job?.bind Job.number? = some n) :
    ∃ qs, (r.report (s.report r.engine depth c)).Pursued (s.report r.engine depth c).leaves? qs
      (s.perform r.engine depth c).2 := by
  obtain ⟨jobs, hnumbered, hwaits⟩ := h.waits
  obtain ⟨ps, t, k, rfl, rfl⟩ := hwaits n rfl
  obtain ⟨job, hjob, hnumber⟩ := Option.bind_eq_some_iff.1 hown
  obtain ⟨place, w, hplace, htake⟩ : ∃ place w, (c = .run place ∨ c = .runDetached place) ∧
      s.world.takeJob place = some (job, w) := by
    cases c with
    | run place =>
        obtain ⟨⟨_, w⟩, htake, rfl⟩ := Option.map_eq_some_iff.1 hjob
        exact ⟨place, w, .inl rfl, htake⟩
    | runDetached place =>
        obtain ⟨⟨_, w⟩, htake, rfl⟩ := Option.map_eq_some_iff.1 hjob
        exact ⟨place, w, .inr rfl, htake⟩
    | _ => cases hjob
  obtain ⟨queue, pool, hperm, rfl⟩ := World.takeJob_some htake
  obtain rfl : job = t.job k (r.here ps) (some r.root) n := by
    have hwaiting : job ∈ s.world.jobsOf n :=
      List.mem_filter.2 ⟨hperm.mem_iff.2 (List.mem_cons_self ..), by simp [hnumber]⟩
    rw [← here_ofStart ps t]
    exact List.mem_singleton.1 ((hnumbered.kept n rfl).2.mem_iff.1 hwaiting)
  have hover : ({ r with base := World.ledger { s.world with queue := queue, pool := pool } } : Venture).Over
      (s.perform r.engine depth c).2.world.ledger := by
    rcases hplace with rfl | rfl
    · exact h.toStands.onJob hclean hobeys htake (.inl rfl)
    · exact h.toStands.onJob hclean hobeys htake (.inr rfl)
  have hleft : World.Numbered none [] { s.world with queue, pool } :=
    ⟨fun job hjob => hnumbered.numbered job (hperm.mem_iff.2 (List.mem_cons_of_mem _ hjob)), nofun⟩
  exact Over.pursued (w := { s.world with queue, pool }) hover rfl rfl rfl hleft

/-- Whatever is called for meanwhile, what comes to the invocation is in the reports of its jobs. -/
theorem Pursued.follows (h : r.Pursued n? ps s) (cs : List Call) :
    ∃ qs, (r.reports (Report.follow n? (s.run r.engine depth cs))).Stands qs := by
  induction cs generalizing r n? ps s with
  | nil =>
      rw [System.run, Report.follow_nil, reports_nil]
      exact ⟨ps, h.toStands⟩
  | cons c cs ih =>
      have hrest {r' : Venture} {n? : Option Nat} {qs : List Passage} (hengine : r'.engine = r.engine)
          (hclean : r'.origin.failure = none) (hobeys : r'.root.Obeys (·.isInvoke = false))
          (h : r'.Pursued n? qs (s.perform r.engine depth c).2) : ∃ qs, (r'.reports (Report.follow n?
            (if (s.perform r.engine depth c).1.isSome then (s.perform r.engine depth c).2.run r.engine depth cs
              else []))).Stands qs := by
        rw [← hengine] at h ⊢
        split
        · exact ih hclean hobeys h
        · rw [Report.follow_nil, reports_nil]
          exact ⟨qs, h.toStands⟩
      cases n? with
      | none =>
          rw [Report.follow, reports_nil]
          exact ⟨ps, h.toStands⟩
      | some n =>
          rw [System.run, Report.follow]
          split
          · rename_i hown
            obtain ⟨qs, hqs⟩ := h.runs hclean hobeys hown
            rw [reports_cons]
            exact hrest rfl hclean hobeys hqs
          · rename_i hother
            -- The call is somebody else's: whatever it runs and leaves has another number.
            obtain ⟨jobs, hnumbered, hwaits⟩ := h.waits
            refine hrest rfl hclean hobeys ⟨h.toStands, jobs, hnumbered.perform depth fun m hm hn => ?_, hwaits⟩
            cases hn
            exact hother hm

end

/-- The invocation is made. -/
theorem invoke_pursued {b : BoundProcess} {i : Nat} {action : String} {user : Option Caller} {context : Context}
    (hclean : context.failure = none) (hobeys : b.process.Obeys (·.isInvoke = false)) (hb : s.bound[i]? = some b)
    (hnumbered : s.world.Numbered n? jobs) (engine : Engine) (start : Start) :
    let r : Venture := ⟨engine, start, b.process, action, context.withUser user, s.world.ledger, [], []⟩
    let p := s.report engine depth (.invoke i action user context)
    ∃ qs, (r.report p).Pursued p.leaves? qs p.after := by
  intro r p
  have hon : r.On [] s.world.ledger :=
    Stands.on (r := r) ⟨⟨List.forall_mem_nil _, nofun, .nil⟩, trivial, rfl, rfl⟩
  obtain ⟨hends, hcut⟩ := invoke_flows (r := r) hclean hobeys depth b.view s.world hon
  have hover : r.Over p.after.world.ledger := by
    change r.Over (s.onBound i fun b => b.process.invoke engine depth action user context).2.world.ledger
    rcases s.onBound_cases i fun b => b.process.invoke engine depth action user context with
      heq | ⟨b', hb', ⟨result, v, w, ho, heq⟩ | ⟨w, ho, heq⟩⟩
    · rw [heq]
      exact hon.over
    · obtain rfl := Option.some.inj (hb.symm.trans hb')
      rw [heq]
      have hend := hends (result, v) w ho
      cases result <;> exact hend
    · obtain rfl := Option.some.inj (hb.symm.trans hb')
      rw [heq]
      exact hcut w ho
  exact Over.pursued (r := r) (w := s.world) hover rfl rfl rfl hnumbered

end Venture

/-! ## Contexts -/

theorem Context.after_eq {c : Context} (h : c.failure = none) (failure : Option CommandFailure) :
    c.after failure = ⟨c.user, c.data, failure⟩ := by
  cases failure with
  | none =>
      obtain ⟨user, data, _⟩ := c
      cases h
      rfl
  | some f => rfl

namespace System

theorem numbered_finish {w : World} (hw : w.pending = []) (engine : Engine) (depth : Nat) (cs : List Call) :
    ((start w).finish engine depth cs).world.Numbered none [] := by
  have hstart : (start w).world.Numbered none [] := by
    refine ⟨fun job hjob => ?_, nofun⟩
    change job ∈ w.pending at hjob
    rw [hw] at hjob
    cases hjob
  exact (finish_induction engine depth cs [] (J := fun _ s => s.world.Numbered none [])
    (K := fun s => s.world.Numbered none []) (fun _ _ h => h)
    (fun _ _ _ _ h _ => h.perform depth nofun) (fun _ _ _ _ h _ => h.perform depth nofun) hstart).1

/--
Let an invocation be made with a context that tells of no failure, after any calls and before any others, under any
executor and with any failures of stores, on a process whose commands start no transitions. The commands called in it,
be it at once or in jobs that it leaves one after the other, are those of its first transition and of those in the
chain behind that. Each of them gets the given caller, whatever caller the context held, and the data of that context
with all that was inserted by the commands that were called before it, in their order. Failure callbacks, and none but
they, are told of a failure, which is that of the side effect that has failed in the same transition.
-/
theorem invoke_hands_on {w : World} (hw : w.pending = []) (engine : Engine) (depth : Nat) (past later : List Call)
    {i : Nat} {b : BoundProcess} (hb : ((start w).finish engine depth past).bound[i]? = some b)
    (hobeys : b.process.Obeys (·.isInvoke = false)) (action : String) (user : Option Caller) {context : Context}
    (hcontext : context.failure = none) :
    let starts := Transition.execute engine depth
    let run := Report.thread
      (((start w).finish engine depth past).run engine depth (.invoke i action user context :: later))
    ∃ passages, Passage.Itinerary engine starts b.process action passages ∧
      run.flatMap Report.starts = passages.map Passage.transition ∧
      run.flatMap Report.calls = (passages.flatMap Passage.told).map Told.moment ∧
      ∀ before told behind, passages.flatMap Passage.told = before ++ told :: behind →
        told.turn.stage.context =
          ⟨user, context.data.insertAll (Told.inserts engine starts before), told.failure⟩ := by
  intro starts run
  let s := (start w).finish engine depth past
  let p := s.report engine depth (.invoke i action user context)
  let r : Venture := ⟨engine, starts, b.process, action, context.withUser user, s.world.ledger, [], []⟩
  obtain ⟨qs, hqs⟩ : ∃ qs, (r.report p).Pursued p.leaves? qs p.after :=
    Venture.invoke_pursued hcontext hobeys hb (numbered_finish hw engine depth past) engine starts
  have hstands : ∃ ps, (r.reports run).Stands ps := by
    have hrun : run =
        p :: Report.follow p.leaves? (if p.result.isSome then p.after.run engine depth later else []) := rfl
    rw [hrun, Venture.reports_cons]
    split
    · exact hqs.follows hcontext hobeys later
    · rw [Report.follow_nil, Venture.reports_nil]
      exact ⟨qs, hqs.toStands⟩
  obtain ⟨ps, hps⟩ := hstands
  refine ⟨ps, hps.toItinerary, hps.transitions.symm, hps.calls.symm, fun before told behind hsplit => ?_⟩
  have hflow := hps.flow
  rw [hsplit] at hflow
  exact hflow.context.trans (Context.after_eq (c := (context.withUser user).insertAll _) hcontext told.failure)

namespace Parcel

def field : StateKey := ⟨"parcel", "1", "state"⟩

/-- Adds to the context under the command's own name. -/
def adding (name text : String) (result : Except String Unit) : Command :=
  ⟨name, .call (.insert name (.str text)) fun _ => .pure result⟩

/-- A parcel that is sent once it is packed. The van does not get far. -/
def process : Process :=
  ⟨"parcel", [], [],
    [⟨"pack", ["open"], .moves "packed" none (some "send"), none, [], [], [adding "weight" "3 kg" (.ok ())],
        [adding "label" "fragile" (.ok ())], []⟩,
      ⟨"send", ["packed"], .moves "sent" none none, some "lost", [], [], [adding "van" "blue" (.error "no fuel")], [],
        [adding "excuse" "traffic" (.ok ())]⟩], []⟩

def world : World :=
  { World.start .queue (.new 16) with
    entities := ⟨[⟨"locker", "1", [("state", .str "open")]⟩, ⟨"parcel", "1", [("state", .str "open")]⟩]⟩ }

def clerk : Caller :=
  ⟨"clerk", []⟩

/-- A locker is about to be locked, too. -/
def past : List Call :=
  [.bind process field, .bind (Locker.process []) Locker.field, .invoke 1 "lock" none .empty]

/-- Somebody else has left a context with a wrong weight. -/
def context : Context :=
  ⟨some ⟨"guest", []⟩, [("weight", .str "1 kg")], none⟩

/-- What a command was called with, the members of its data as texts. -/
structure Shown where
  command : String
  user : Option String
  data : List (String × Option String)
  failure : Option (String × String)
deriving DecidableEq

def shown : Entry → Option Shown
  | .command name _ c =>
    some ⟨name, c.user.map Caller.id, c.data.map fun m => (m.1, m.2.asString?),
      c.failure.map fun f => (f.command, f.error)⟩
  | _ => none

end Parcel

/-- The parcel is packed once the locker is locked, and sent in a job of its own. -/
theorem parcel_hands_on :
    let engine : Engine := ⟨.standard, []⟩
    let starts := Transition.execute engine 2
    let s := (start Parcel.world).finish engine 2 Parcel.past
    let run := Report.thread
      (s.run engine 2 [.invoke 0 "pack" (some Parcel.clerk) Parcel.context, .run 0, .run 0, .run 0])
    Parcel.world.pending = [] ∧ s.bound[0]? = some (.fresh Parcel.process Parcel.field) ∧
    Parcel.process.Obeys (·.isInvoke = false) ∧ Parcel.context.failure = none ∧
    (∃ passages, Passage.Itinerary engine starts Parcel.process "pack" passages ∧
      run.flatMap Report.starts = passages.map Passage.transition ∧
      run.flatMap Report.calls = (passages.flatMap Passage.told).map Told.moment ∧
      ∀ before told behind, passages.flatMap Passage.told = before ++ told :: behind →
        told.turn.stage.context =
          ⟨some Parcel.clerk, Parcel.context.data.insertAll (Told.inserts engine starts before), told.failure⟩) ∧
    (run.flatMap Report.calls).map (fun m => Parcel.shown m.entry) = [
      some ⟨"weight", "clerk", [("weight", "1 kg")], none⟩,
      some ⟨"label", "clerk", [("weight", "3 kg")], none⟩,
      some ⟨"van", "clerk", [("label", "fragile"), ("weight", "3 kg")], none⟩,
      some ⟨"excuse", "clerk", [("label", "fragile"), ("van", "blue"), ("weight", "3 kg")],
        some ("van", "no fuel")⟩] := by
  intro engine starts s run
  have hobeys : Parcel.process.Obeys (·.isInvoke = false) := by
    simp [Parcel.process, Parcel.adding, Process.Obeys, Process.allTransitions, Process.allTransitionsIn,
      Transition.Obeys, Transition.commands, Program.All, Op.isInvoke]
  refine ⟨rfl, rfl, hobeys, rfl, ?_, by decide +kernel⟩
  exact invoke_hands_on (w := Parcel.world) rfl engine 2 Parcel.past [.run 0, .run 0, .run 0]
    (b := .fresh Parcel.process Parcel.field) rfl hobeys "pack" (some Parcel.clerk) rfl

end System

end Workflow
