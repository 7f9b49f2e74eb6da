import Workflow.Proofs.Engine.Course

/-!
# Numbers of jobs that wait

A job that waits bears the number of the start that it belongs to. So the one of some number stays as it is, whatever
other transitions come to, until it is taken itself.
-/

namespace Workflow

/-- The number of the start that the job belongs to. -/
def Job.number? (job : Job) : Option Nat :=
  job.flight?.map Flight.number

/-- The jobs of that number that wait. -/
def Scene.jobsOf (s : Scene) (n : Nat) : List Job :=
  s.pending.filter (·.number? == some n)

/-- All jobs that wait are numbered, and those of the one number, if there is one, are just these. -/
structure World.Numbered (n? : Option Nat) (jobs : List Job) (w : World) : Prop where
  numbered : ∀ job ∈ w.pending, ∃ n < w.starts, job.number? = some n
  kept : ∀ n ∈ n?, n < w.starts ∧ (w.jobsOf n).Perm jobs

namespace World.Numbered

variable {n? : Option Nat} {jobs : List Job} {w w' : World} {job : Job} {m : Nat}

theorem next (h : w.Numbered n? jobs) (hpending : w'.pending = w.pending := by rfl)
    (hstarts : w.starts ≤ w'.starts := by exact Nat.le_refl _) : w'.Numbered n? jobs where
  numbered job hjob := by
    obtain ⟨n, hlt, hn⟩ := h.numbered job (hpending ▸ hjob)
    exact ⟨n, Nat.lt_of_lt_of_le hlt hstarts, hn⟩
  kept n hn := by
    obtain ⟨hlt, hperm⟩ := h.kept n hn
    rw [Scene.jobsOf, hpending]
    exact ⟨Nat.lt_of_lt_of_le hlt hstarts, hperm⟩

/-- A job of another number makes no difference to those of the one. -/
theorem jobsOf_perm {s s' : Scene} {n : Nat} (hperm : s'.pending.Perm (job :: s.pending)) (hjob : job.number? = some m)
    (hne : m ≠ n) : (s'.jobsOf n).Perm (s.jobsOf n) := by
  have hfilter := hperm.filter (·.number? == some n)
  rwa [List.filter_cons_of_neg (by simpa [hjob] using hne)] at hfilter

theorem put (h : w.Numbered n? jobs) (hjob : job.number? = some m) (hlt : m < w.starts) (hm : m ∉ n?)
    (hperm : w'.pending.Perm (job :: w.pending)) (hstarts : w'.starts = w.starts := by rfl) : w'.Numbered n? jobs where
  numbered job' hjob' := by
    rw [hstarts]
    rcases List.mem_cons.1 (hperm.mem_iff.1 hjob') with rfl | hjob'
    · exact ⟨m, hlt, hjob⟩
    · exact h.numbered job' hjob'
  kept n hn := by
    obtain ⟨hlt', hkept⟩ := h.kept n hn
    exact ⟨hstarts ▸ hlt', (jobsOf_perm hperm hjob fun heq => hm (heq ▸ hn)).trans hkept⟩

theorem take (h : w.Numbered n? jobs) (hjob : job.number? = some m) (hm : m ∉ n?)
    (hperm : w.pending.Perm (job :: w'.pending)) (hstarts : w'.starts = w.starts := by rfl) : w'.Numbered n? jobs where
  numbered job' hjob' := by
    rw [hstarts]
    exact h.numbered job' (hperm.mem_iff.2 (List.mem_cons_of_mem _ hjob'))
  kept n hn := by
    obtain ⟨hlt, hkept⟩ := h.kept n hn
    exact ⟨hstarts ▸ hlt, (jobsOf_perm hperm hjob fun heq => hm (heq ▸ hn)).symm.trans hkept⟩

/-- A job that was put up with a new number is the one of that number. -/
theorem added (h : w.Numbered n? jobs) (hjob : job.number? = some m) (hle : w.starts ≤ m) (hlt : m < w'.starts)
    (hperm : w'.pending.Perm (job :: w.pending)) : w'.Numbered (some m) [job] where
  numbered job' hjob' := by
    rcases List.mem_cons.1 (hperm.mem_iff.1 hjob') with rfl | hjob'
    · exact ⟨m, hlt, hjob⟩
    · obtain ⟨n, hn, hnumber⟩ := h.numbered job' hjob'
      exact ⟨n, by omega, hnumber⟩
  kept n hn := by
    cases hn
    have hearlier : ∀ job' ∈ w.pending, ¬(job'.number? == some m) := by
      intro job' hjob' heq
      obtain ⟨n, hn, hnumber⟩ := h.numbered job' hjob'
      obtain rfl : n = m := by simpa [hnumber] using heq
      omega
    have hfilter := hperm.filter (·.number? == some m)
    rw [List.filter_cons_of_pos (by simp [hjob]), List.filter_eq_nil_iff.2 hearlier] at hfilter
    exact ⟨hlt, hfilter⟩

end World.Numbered

/-- While other transitions are under way, the job of the number waits. -/
structure Besides (n? : Option Nat) (jobs : List Job) (legs : List Leg) (w : World) : Prop
    extends w.Numbered n? jobs where
  apart : ∀ leg ∈ legs, leg.flight.number < w.starts ∧ leg.flight.number ∉ n?

namespace Besides

variable {n? : Option Nat} {jobs : List Job} {leg : Leg} {legs : List Leg} {w w' : World}

theorem next (h : Besides n? jobs legs w) (hpending : w'.pending = w.pending := by rfl)
    (hstarts : w'.starts = w.starts := by rfl) : Besides n? jobs legs w' :=
  ⟨h.toNumbered.next hpending (Nat.le_of_eq hstarts.symm), fun leg hleg => hstarts ▸ h.apart leg hleg⟩

theorem drop (h : Besides n? jobs (leg :: legs) w) : Besides n? jobs legs w :=
  ⟨h.toNumbered, fun leg hleg => h.apart leg (List.mem_cons_of_mem _ hleg)⟩

theorem tell (h : Besides n? jobs (leg :: legs) w) (kinds : List EventKind) :
    Besides n? jobs (leg.after kinds :: legs) w :=
  ⟨h.toNumbered, List.forall_mem_cons.2 (List.forall_mem_cons.1 h.apart)⟩

/-- The job of a transition under way is put up. -/
theorem put {allows : Op → Prop} {keys : StateKey → Prop} {travels : Context → Prop} {roots : Option Process → Prop}
    {job : Job} (h : Besides n? jobs (leg :: legs) w) (hjob : job.Bears allows keys travels roots leg)
    (hperm : w'.pending.Perm (job :: w.pending)) (hstarts : w'.starts = w.starts := by rfl) :
    Besides n? jobs legs w' := by
  obtain ⟨hlt, hne⟩ := h.apart leg (List.mem_cons_self ..)
  have hnumber : job.number? = some leg.flight.number := by rw [Job.number?, hjob.flight]; rfl
  exact ⟨h.toNumbered.put hnumber hlt hne hperm hstarts, fun leg hleg => hstarts ▸ h.drop.apart leg hleg⟩

end Besides

/-- The course of transitions that have another number, whatever commands, executors and errors do. -/
def numbering (engine : Engine) (n? : Option Nat) (jobs : List Job) : Course engine where
  holds := Besides n? jobs
  allows _ := True
  keys _ := True
  travels _ := True
  roots _ := True
  executors _ := True
  excuse _ := True
  runs := True
  refuses := True
  nests := True
  lasting _ _ := trivial
  excused _ := .inr trivial
  inserted _ _ _ _ := trivial
  failing _ _ _ := trivial
  resumed _ _ := trivial
  varied _ := ⟨trivial, trivial⟩
  running _ := trivial
  rejecting _ := trivial
  executor _ := trivial
  struck _ h := h.next
  remarked _ h := h.next
  wrote _ h := h.next
  removed _ _ h := h.next
  switched _ _ h := h.next
  turnedAway _ _ h := h.next
  started s root _ hnumber _ _ _ _ _ h := by
    refine ⟨h.toNumbered.next rfl (Nat.le_succ _), List.forall_mem_cons.2 ⟨?_, fun leg hleg => ?_⟩⟩
    · refine ⟨(Nat.lt_succ_of_le (Nat.le_of_eq hnumber) : s.number < _), fun hn => ?_⟩
      exact absurd (h.kept _ hn).1 (hnumber ▸ Nat.lt_irrefl _)
    · obtain ⟨hlt, hne⟩ := h.apart leg hleg
      exact ⟨Nat.lt_succ_of_lt hlt, hne⟩
  told kind _ _ h := (h.tell [kind]).next
  landed h := h.next
  unlocked h := (h.tell [.unlocked]).next
  ended _ h := h.drop
  queued job hjob _ h := h.put hjob (Scene.pending_queued ..)
  pooled job hjob _ h := h.put hjob (Scene.pending_pooled ..)
  reported _ _ _ _ _ h := h.next
  abandoned _ _ _ _ _ h := h.drop.next
  acquired _ _ _ _ _ _ h := h.next
  freed _ _ _ _ _ h := h.next
  invoked _ := ⟨trivial, trivial, fun _ => trivial, fun _ => trivial, fun h => h.drop⟩

end Workflow
