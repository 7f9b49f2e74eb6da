import Workflow.Proofs.Calls

/-!
# Locks that stay behind

In a run whose commands leave locks alone and start nothing, a lock that is held while no job waits for it
was left behind by a call that said so: the call that took the lock or the one that ran its job returned an
error, or an event told that what follows the job had failed. Without faults, and while the fields hold
texts, no lock stays behind. A field may have its lock key in common with another one, and then its lock is
held while the job of the other waits.
-/

namespace Workflow

namespace Entry

def isAside : Entry → Bool
  | started _ | acquired _ | released _ => false
  | _ => true

theorem isAside_of_isRemark {e : Entry} (h : e.isRemark = true) : e.isAside = true := by
  cases e <;> first | rfl | cases h

theorem ne_started {e : Entry} (h : e.isAside = true) (s : Started) : e ≠ .started s := fun heq => by
  rw [heq] at h
  cases h

theorem ne_lock {e : Entry} (h : e.isAside = true) (lockKey : String) :
    e ≠ .released lockKey ∧ e ≠ .acquired lockKey := by
  constructor <;> intro heq <;> rw [heq] at h <;> cases h

end Entry

/-- The start took the lock, which was neither released nor taken again in `later`. -/
def World.TookLast (lockPrefix lockKey : String) (s : Started) (later : List Moment) (w : World) : Prop :=
  s.key.lockKey lockPrefix = lockKey ∧
    (∀ m ∈ later, m.entry ≠ .released lockKey ∧ m.entry ≠ .acquired lockKey) ∧
    ∃ m earlier, m.entry = .started s ∧ w.journal = later ++ m :: earlier

/-- An event tells of a failure on the field of the start. -/
def Started.Told (s : Started) (later : List Moment) : Prop :=
  ∃ m ∈ later, ∃ action error, m.entry = .emitted ⟨s.key, action, .continuationFailed error⟩

def Entry.tellsFailure : Entry → Bool
  | emitted ⟨_, _, .continuationFailed _⟩ => true
  | _ => false

theorem Started.Told.exists {s : Started} {later : List Moment} (h : s.Told later) :
    ∃ m ∈ later, m.entry.tellsFailure = true := by
  obtain ⟨m, hm, action, error, hentry⟩ := h
  exact ⟨m, hm, by rw [hentry]; rfl⟩

/-- The call started the transition, or it ran its job. -/
def Report.Concerns (r : Report) (s : Started) : Prop :=
  (∃ m ∈ r.moments, m.entry = .started s) ∨ ∃ job, r.job? = some job ∧ job.flight? = some s.flight

/-- A fault was planned, or one of the fields held no text at some moment. -/
def Ailing (ailing : Prop) (keys : StateKey → Prop) (w : World) : Prop :=
  ailing ∨ ∃ m ∈ w.journal, ∃ k, keys k ∧ ¬ m.scene.entities.Textual k

theorem Ailing.lasting {ailing : Prop} {keys : StateKey → Prop} {w w' : World}
    (hjournal : w.journal <:+ w'.journal) (h : Ailing ailing keys w) : Ailing ailing keys w' :=
  h.imp_right fun ⟨m, hm, hk⟩ => ⟨m, hjournal.subset hm, hk⟩

/-- A field that comes to hold no text is noticed as soon as something is recorded. -/
theorem Ailing.recorded {ailing : Prop} {keys : StateKey → Prop} {w w' : World} {e : Entry}
    (h : (w.faults = [] ∧ ∀ k, keys k → w.entities.Textual k) ∨ Ailing ailing keys w)
    (hjournal : w'.journal = w.journal := by rfl) (hfaults : w'.faults = w.faults := by rfl) :
    ((w'.record e).faults = [] ∧ ∀ k, keys k → (w'.record e).entities.Textual k) ∨
      Ailing ailing keys (w'.record e) := by
  rcases h with ⟨hnil, -⟩ | hailing
  · by_cases htext : ∀ k, keys k → w'.entities.Textual k
    · exact .inl ⟨hfaults.trans hnil, htext⟩
    · refine .inr (.inr ⟨⟨e, w'.toScene⟩, List.mem_cons_self .., ?_⟩)
      simpa using htext
  · exact .inr (hailing.lasting (hjournal ▸ List.suffix_cons _ _))

/-- A lock that is held is in somebody's hands, goes with a job that waits, or has been accounted for. -/
structure Accounted (lockPrefix : String) (excuse : World → Prop) (known : Started → Prop)
    (hands : List Flight) (w : World) (lockKey : String) (s : Started) (later : List Moment) : Prop where
  took : w.TookLast lockPrefix lockKey s later
  who : s.flight ∈ hands ∨ (∃ job ∈ w.pending, job.flight? = some s.flight) ∨
    (excuse w ∧ (known s ∨ s.Told later))

/-- What is known of locks since a call began, when starts that are `known` have been accounted for. -/
structure Accounts (lockPrefix : String) (ailing : Prop) (keys : StateKey → Prop) (known : Started → Prop)
    (base : List Moment) (number : Nat) (hands : List Flight) (w : World) : Prop where
  since : base <:+ w.journal
  counted : number ≤ w.starts
  numbers : ∀ m ∈ w.journal, ∀ s, m.entry = .started s → s.number < w.starts
  well : (w.faults = [] ∧ ∀ k, keys k → w.entities.Textual k) ∨ Ailing ailing keys w
  locks : ∀ lockKey, w.locks.isHeld lockKey = true →
    ∃ s later, Accounted lockPrefix (Ailing ailing keys) known hands w lockKey s later

namespace World.TookLast

variable {p L : String} {s : Started} {later : List Moment} {w w' : World}

theorem recorded (h : w.TookLast p L s later) {e : Entry} (he : e ≠ .released L ∧ e ≠ .acquired L)
    (hjournal : w'.journal = w.journal := by rfl) :
    (w'.record e).TookLast p L s (⟨e, w'.toScene⟩ :: later) := by
  obtain ⟨hlock, hlater, m, earlier, hm, heq⟩ := h
  exact ⟨hlock, List.forall_mem_cons.2 ⟨he, hlater⟩, m, earlier, hm, journal_record heq hjournal⟩

end World.TookLast

theorem Started.Told.cons {s : Started} {later : List Moment} (m : Moment) (h : s.Told later) :
    s.Told (m :: later) := by
  obtain ⟨m', hm', htold⟩ := h
  exact ⟨m', List.mem_cons_of_mem m hm', htold⟩

namespace Accounted

variable {p L : String} {excuse : World → Prop} {known known' : Started → Prop}
  {hands hands' : List Flight} {f : Flight} {s : Started} {later : List Moment} {w w' : World}

theorem recorded (h : Accounted p excuse known hands w L s later) {e : Entry}
    (hlasting : excuse w → excuse (w'.record e)) (he : e ≠ .released L ∧ e ≠ .acquired L)
    (hjournal : w'.journal = w.journal := by rfl) (hpending : w'.pending = w.pending := by rfl) :
    Accounted p excuse known hands (w'.record e) L s (⟨e, w'.toScene⟩ :: later) := by
  refine ⟨h.took.recorded he hjournal, h.who.imp_right (Or.imp ?_ ?_)⟩
  · exact fun ⟨job, hjob, hflight⟩ => ⟨job, hpending ▸ hjob, hflight⟩
  · exact fun ⟨hw, hs⟩ => ⟨hlasting hw, hs.imp_right (.cons _)⟩

theorem passed (h : Accounted p excuse known hands w L s later)
    (hhands : s.flight ∈ hands → s.flight ∈ hands' ∨ ∃ job ∈ w'.pending, job.flight? = some s.flight)
    (hpending : ∀ job ∈ w.pending, job.flight? = some s.flight →
      s.flight ∈ hands' ∨ ∃ job ∈ w'.pending, job.flight? = some s.flight)
    (hlasting : excuse w → excuse w') (hjournal : w'.journal = w.journal := by rfl) :
    Accounted p excuse known hands' w' L s later := by
  obtain ⟨⟨hlock, hlater, m, earlier, hm, heq⟩, hwho⟩ := h
  refine ⟨⟨hlock, hlater, m, earlier, hm, hjournal.trans heq⟩, ?_⟩
  rcases hwho with hs | ⟨job, hjob, hflight⟩ | ⟨hw, hs⟩
  · exact (hhands hs).imp_right .inl
  · exact (hpending job hjob hflight).imp_right .inl
  · exact .inr (.inr ⟨hlasting hw, hs⟩)

theorem settled (h : Accounted p excuse known (f :: hands) w L s later)
    (hf : s.flight = f → excuse w ∧ (known' s ∨ s.Told later)) (hknown : ∀ s, known s → known' s) :
    Accounted p excuse known' hands w L s later := by
  refine ⟨h.took, ?_⟩
  rcases h.who with hs | hs | ⟨hw, hs⟩
  · cases List.mem_cons.1 hs with
    | inl heq => exact .inr (.inr (hf heq))
    | inr hs => exact .inl hs
  · exact .inr (.inl hs)
  · exact .inr (.inr ⟨hw, hs.imp_left (hknown s)⟩)

end Accounted

namespace Accounts

variable {p : String} {ailing : Prop} {keys : StateKey → Prop} {known : Started → Prop}
  {base : List Moment} {number : Nat} {hands hands' : List Flight} {f : Flight} {w w' : World}

/-- Something is recorded; what becomes of the locks is to be seen. -/
theorem recorded (h : Accounts p ailing keys known base number hands w) {e : Entry}
    (he : ∀ s, e = .started s → s.number < w'.starts)
    (hlocks : ∀ L, w'.locks.isHeld L = true →
      ∃ s later, Accounted p (Ailing ailing keys) known hands' (w'.record e) L s later)
    (hjournal : w'.journal = w.journal := by rfl) (hstarts : w.starts ≤ w'.starts := by exact Nat.le_refl _)
    (hfaults : w'.faults = w.faults := by rfl) :
    Accounts p ailing keys known base number hands' (w'.record e) where
  since := (h.since.trans (hjournal ▸ List.suffix_rfl)).trans (List.suffix_cons _ _)
  counted := Nat.le_trans h.counted hstarts
  numbers := List.forall_mem_cons.2 ⟨he, fun m hm s hs =>
    Nat.lt_of_lt_of_le (h.numbers m (hjournal ▸ hm) s hs) hstarts⟩
  well := Ailing.recorded h.well hjournal hfaults
  locks := hlocks

theorem noted (h : Accounts p ailing keys known base number hands w) {e : Entry}
    (he : e.isAside = true)
    (hjournal : w'.journal = w.journal := by rfl) (hpending : w'.pending = w.pending := by rfl)
    (hlocks : w'.locks = w.locks := by rfl) (hstarts : w'.starts = w.starts := by rfl)
    (hfaults : w'.faults = w.faults := by rfl) :
    Accounts p ailing keys known base number hands (w'.record e) := by
  refine h.recorded (fun s hs => absurd hs (Entry.ne_started he s)) (fun L hL => ?_) hjournal
    (Nat.le_of_eq hstarts.symm) hfaults
  obtain ⟨s, later, hs⟩ := h.locks L (hlocks ▸ hL)
  have hlasting : Ailing ailing keys w → Ailing ailing keys (w'.record e) :=
    .lasting (hjournal ▸ List.suffix_cons _ _)
  exact ⟨s, _, hs.recorded hlasting (Entry.ne_lock he L) hjournal hpending⟩

theorem moved (h : Accounts p ailing keys known base number hands w)
    (hhands : ∀ f ∈ hands, f ∈ hands' ∨ ∃ job ∈ w'.pending, job.flight? = some f)
    (hpending : ∀ job ∈ w.pending, ∀ f, job.flight? = some f →
      f ∈ hands' ∨ ∃ job ∈ w'.pending, job.flight? = some f)
    (hfaults : w.faults = [] → w'.faults = [])
    (hjournal : w'.journal = w.journal := by rfl) (hlocks : w'.locks = w.locks := by rfl)
    (hstarts : w'.starts = w.starts := by rfl) (hentities : w'.entities = w.entities := by rfl) :
    Accounts p ailing keys known base number hands' w' where
  since := hjournal ▸ h.since
  counted := hstarts ▸ h.counted
  numbers := by rw [hjournal, hstarts]; exact h.numbers
  well := h.well.imp (fun hwell => ⟨hfaults hwell.1, hentities ▸ hwell.2⟩)
    (.lasting (hjournal ▸ List.suffix_rfl))
  locks L hL := by
    obtain ⟨s, later, hs⟩ := h.locks L (hlocks ▸ hL)
    exact ⟨s, later, hs.passed (hhands _) (fun job hjob hflight => hpending job hjob _ hflight)
      (.lasting (hjournal ▸ List.suffix_rfl)) hjournal⟩

theorem struck (h : Accounts p ailing keys known base number hands w) (call : StoreCall) :
    Accounts p ailing keys known base number hands (w.struck call) :=
  h.moved (fun _ hf => .inl hf) (fun job hjob _ hflight => .inr ⟨job, hjob, hflight⟩)
    fun hnil => by rw [World.struck, hnil]; rfl

theorem started (h : Accounts p ailing keys known base number hands w) (s : Started) (ttl : Nat)
    (hnumber : s.number = w.starts) :
    Accounts p ailing keys known base number (s.flight :: hands)
      (((w.lock (s.key.lockKey p) ttl).takeOff s.key).record (.started s)) := by
  let locked := w.lock (s.key.lockKey p) ttl
  have hlocked (L) (hne : L ≠ s.key.lockKey p) (hL : locked.locks.isHeld L = true) :
      ∃ s' later, Accounted p (Ailing ailing keys) known hands locked L s' later := by
    obtain ⟨s', later, hs'⟩ := h.locks L ((w.locks.isHeld_acquire_ne ttl hne).symm.trans hL)
    exact ⟨s', _, hs'.recorded (.lasting (List.suffix_cons _ _))
      ⟨fun h => (nomatch h), fun heq => by cases heq; exact hne rfl⟩⟩
  have hsuffix : w.journal <:+ locked.journal := List.suffix_cons _ _
  refine ⟨(h.since.trans hsuffix).trans (List.suffix_cons _ _), Nat.le_succ_of_le h.counted, ?_, ?_, ?_⟩
  · have hearlier (m) (hm : m ∈ w.journal) (s') (hs' : m.entry = .started s') : s'.number < w.starts + 1 :=
      Nat.lt_succ_of_lt (h.numbers m hm s' hs')
    refine List.forall_mem_cons.2 ⟨fun s' hs' => ?_,
      List.forall_mem_cons.2 ⟨fun _ h => (nomatch h), hearlier⟩⟩
    cases hs'
    exact hnumber ▸ Nat.lt_succ_self _
  · exact h.well.imp_right (.lasting (hsuffix.trans (List.suffix_cons _ _)))
  · intro L hL
    by_cases hne : L = s.key.lockKey p
    · refine ⟨s, [], ⟨hne.symm, List.forall_mem_nil _, _, _, rfl, rfl⟩, .inl (List.mem_cons_self ..)⟩
    · obtain ⟨s', later, hs'⟩ := hlocked L hne hL
      have hpassed :
          Accounted p (Ailing ailing keys) known (s.flight :: hands) (locked.takeOff s.key) L s' later :=
        hs'.passed (fun hs => .inl (List.mem_cons_of_mem _ hs))
          (fun job hjob hflight => .inr ⟨job, hjob, hflight⟩) (.lasting List.suffix_rfl)
      exact ⟨s', _, hpassed.recorded (.lasting (List.suffix_cons _ _))
        ⟨fun h => (nomatch h), fun h => (nomatch h)⟩⟩

theorem unlocked (h : Accounts p ailing keys known base number (f :: hands) w) :
    Accounts p ailing keys known base number hands (w.unlock (f.key.lockKey p)) := by
  refine h.recorded (fun _ h => nomatch h) fun L hL => ?_
  have hne : L ≠ f.key.lockKey p := fun heq => by
    rw [heq, LockStore.isHeld_release_self] at hL
    cases hL
  obtain ⟨s, later, hs⟩ := h.locks L ((w.locks.isHeld_release_ne hne).symm.trans hL)
  -- The flight at hand went with the lock that is free now.
  have hother : s.flight ≠ f := fun heq => hne (hs.took.1.symm.trans (by rw [← heq]; rfl))
  refine ⟨s, _, (hs.settled (fun heq => absurd heq hother) fun _ h => h).recorded
    (.lasting (List.suffix_cons _ _)) ⟨fun heq => ?_, fun h => nomatch h⟩⟩
  cases heq
  exact hne rfl

theorem reported (h : Accounts p ailing keys known base number (f :: hands) w)
    (hailing : Ailing ailing keys w) (action error : String) :
    Accounts p ailing keys known base number hands
      (w.emit ⟨f.key, action, .continuationFailed error⟩) := by
  refine h.recorded (fun _ h => nomatch h) fun L hL => ?_
  obtain ⟨s, later, hs⟩ := h.locks L hL
  have hlasting : Ailing ailing keys w →
      Ailing ailing keys (w.emit ⟨f.key, action, .continuationFailed error⟩) :=
    .lasting (List.suffix_cons _ _)
  refine ⟨s, _, .settled (hs.recorded hlasting (Entry.ne_lock rfl L)) (fun heq => ⟨hlasting hailing, .inr ?_⟩)
    fun _ h => h⟩
  exact ⟨_, List.mem_cons_self .., action, error, by rw [← heq]; rfl⟩

theorem waits (h : Accounts p ailing keys known base number (f :: hands) w) {job : Job}
    (hflight : job.flight? = some f) (hpending : ∀ j ∈ job :: w.pending, j ∈ w'.pending)
    (hfaults : w'.faults = w.faults := by rfl) (hjournal : w'.journal = w.journal := by rfl)
    (hlocks : w'.locks = w.locks := by rfl) (hstarts : w'.starts = w.starts := by rfl)
    (hentities : w'.entities = w.entities := by rfl) :
    Accounts p ailing keys known base number hands w' := by
  refine h.moved (fun g hg => ?_)
    (fun j hj g hg => .inr ⟨j, hpending j (List.mem_cons_of_mem _ hj), hg⟩) (hfaults.trans ·) hjournal hlocks
    hstarts hentities
  cases List.mem_cons.1 hg with
  | inl heq => exact .inr ⟨job, hpending job (List.mem_cons_self ..), heq ▸ hflight⟩
  | inr hg => exact .inl hg

theorem taken (h : Accounts p ailing keys known base number hands w) {job : Job}
    (hflight : job.flight? = some f) (hpending : ∀ j ∈ w.pending, j = job ∨ j ∈ w'.pending)
    (hfaults : w'.faults = w.faults := by rfl) (hjournal : w'.journal = w.journal := by rfl)
    (hlocks : w'.locks = w.locks := by rfl) (hstarts : w'.starts = w.starts := by rfl)
    (hentities : w'.entities = w.entities := by rfl) :
    Accounts p ailing keys known base number (f :: hands) w' := by
  refine h.moved (fun g hg => .inl (List.mem_cons_of_mem _ hg)) (fun j hj g hg => ?_) (hfaults.trans ·)
    hjournal hlocks hstarts hentities
  rcases hpending j hj with rfl | hj
  · exact .inl (Option.some.inj (hflight.symm.trans hg) ▸ List.mem_cons_self ..)
  · exact .inr ⟨j, hj, hg⟩

/-- The account goes on behind a call that may have left a flight, when its start is known now. -/
theorem settled {known' : Started → Prop} (h : Accounts p ailing keys known base number [f] w)
    (hailing : Ailing ailing keys w) (hknown : ∀ s, known s → known' s)
    (hf : ∀ m ∈ w.journal, ∀ s, m.entry = .started s → s.flight = f → known' s) :
    Accounts p ailing keys known' w.journal w.starts [] w := by
  refine ⟨List.suffix_rfl, Nat.le_refl _, h.numbers, h.well, fun L hL => ?_⟩
  obtain ⟨s, later, hs⟩ := h.locks L hL
  refine ⟨s, later, hs.settled (fun heq => ⟨hailing, .inl ?_⟩) hknown⟩
  obtain ⟨-, -, m, earlier, hm, hjournal⟩ := hs.took
  exact hf m (hjournal ▸ List.mem_append_right _ (List.mem_cons_self ..)) s hm heq

theorem renewed {known' : Started → Prop} (h : Accounts p ailing keys known base number [] w)
    (hknown : ∀ s, known s → known' s) : Accounts p ailing keys known' w.journal w.starts [] w := by
  refine ⟨List.suffix_rfl, Nat.le_refl _, h.numbers, h.well, fun L hL => ?_⟩
  obtain ⟨s, later, hs⟩ := h.locks L hL
  exact ⟨s, later, hs.took, hs.who.imp_right fun h => h.imp_right fun h => ⟨h.1, h.2.imp_left (hknown s)⟩⟩

end Accounts

/-- The custody that accounts for locks. Errors have an excuse in faults or in what the fields hold. -/
def accounting (engine : Engine) (ailing : Prop) (keys : StateKey → Prop) (known : Started → Prop)
    (base : List Moment) (number : Nat) : Custody engine where
  holds := Accounts engine.config.lockPrefix ailing keys known base number
  keys := keys
  excuse := Ailing ailing keys
  blamed f := number ≤ f.number
  invokes := False
  resolved := False
  stale _ _ _ := True
  excused h := h.well
  lasting := .lasting
  struck call h := h.struck call
  remarked he h := h.noted (Entry.isAside_of_isRemark he)
  wrote _ h := h.noted rfl
  removed _ _ h := h.noted rfl
  emitted _ h := h.noted rfl
  started s _ hnumber h _ _ := ⟨Nat.le_trans h.counted (Nat.le_of_eq hnumber.symm), h.started s _ hnumber⟩
  landed h := h.noted rfl
  unlocked _ h := h.unlocked
  queued job hflight _ h := h.waits hflight (by simp [Scene.pending]; tauto)
  pooled job hflight _ h := h.waits hflight (by simp [Scene.pending]; tauto)
  taken hpending hflight h := h.taken hflight fun j hj => List.mem_cons.1 (hpending.mem_iff.1 hj)
  switched _ h := h.moved (fun _ hf => .inl hf) (fun job hjob _ hflight => .inr ⟨job, hjob, hflight⟩) id
  reported action error hailing h := h.reported hailing action error
  everywhere := nofun
  pardoned := nofun
  dropped := nofun

/-! ## Runs -/

namespace System

variable {engine : Engine} {depth : Nat} {cs : List Call} {w : World}

def Binds (cs : List Call) (k : StateKey) : Prop :=
  ∃ process, .bind process k ∈ cs

/-- The account between two calls, when the errors of the reports so far are known. -/
def Audited (engine : Engine) (ailing : Prop) (keys : StateKey → Prop) (past : List Report) (s : System) :
    Prop :=
  (accounting engine ailing keys (fun started => ∃ r ∈ past, r.Failed ∧ r.Concerns started)
    s.world.journal s.world.starts).Tended [] s

theorem Audited.start (ailing : Prop) (keys : StateKey → Prop) (hw : w.Idle)
    (hfree : ∀ lockKey, w.locks.isHeld lockKey = false)
    (hwell : (w.faults = [] ∧ ∀ k, keys k → w.entities.Textual k) ∨ ailing) :
    Audited engine ailing keys [] (start w) := by
  have hjournal : (System.start w).world.journal = [] := hw.journal
  have hpending : (System.start w).world.pending = [] := hw.pending
  refine ⟨⟨⟨List.suffix_rfl, Nat.le_refl _, ?_, hwell.imp_right .inl, fun lockKey hheld => ?_⟩,
    False.elim, ?_⟩, List.forall_mem_nil _, List.forall_mem_nil _, List.forall_mem_nil _⟩
  · exact hjournal ▸ List.forall_mem_nil _
  · exact absurd hheld (by rw [show (System.start w).world = w from rfl, hfree]; exact Bool.false_ne_true)
  · exact hpending ▸ List.forall_mem_nil _

/-- A call that returns keeps the account: an error it returns is known from then on. -/
theorem Audited.step {ailing : Prop} {keys : StateKey → Prop} {past : List Report} {s : System} {c : Call}
    (hs : Audited engine ailing keys past s) (hengine : engine.Obeys (Op.Allowed False))
    (hc : c.Obeys (Op.Allowed False)) (hon : c.On keys) (hsome : (s.perform engine depth c).1.isSome) :
    Audited engine ailing keys (past ++ [s.report engine depth c]) (s.perform engine depth c).2 := by
  have hleft := Custody.perform_left depth hs hengine hc hon nofun nofun
  have hknown (started : Started) (h : ∃ r ∈ past, r.Failed ∧ r.Concerns started) :
      ∃ r ∈ past ++ [s.report engine depth c], r.Failed ∧ r.Concerns started := by
    obtain ⟨r, hr, h⟩ := h
    exact ⟨r, List.mem_append_left _ hr, h⟩
  have hreturned {known : Started → Prop} {base : List Moment} {number : Nat} {hands : List Flight}
      (h : (accounting engine ailing keys known base number).Tended hands (s.perform engine depth c).2)
      (haccounts : Accounts engine.config.lockPrefix ailing keys
        (fun started => ∃ r ∈ past ++ [s.report engine depth c], r.Failed ∧ r.Concerns started)
        (s.perform engine depth c).2.world.journal (s.perform engine depth c).2.world.starts []
        (s.perform engine depth c).2.world) :
      Audited engine ailing keys (past ++ [s.report engine depth c]) (s.perform engine depth c).2 :=
    ⟨⟨haccounts, False.elim, h.base.jobs⟩, h.processes, h.keys, h.memos⟩
  match hresult : (s.perform engine depth c).1 with
  | none => rw [hresult] at hsome; cases hsome
  | some (.ok _) =>
      rw [hresult] at hleft
      exact hreturned hleft (hleft.base.holds.renewed hknown)
  | some (.error e) =>
      rw [hresult] at hleft
      rcases hleft with hleft | ⟨f, hf, hailing, hleft⟩
      · exact hreturned hleft (hleft.base.holds.renewed hknown)
      · refine hreturned hleft (hleft.base.holds.settled hailing hknown fun m hm started hstarted heq => ?_)
        refine ⟨_, List.mem_append_right _ (List.mem_singleton_self _), ⟨e, hresult⟩, ?_⟩
        rcases hf with hblamed | ⟨job, hjob, hflight⟩
        · -- A start from before the call has a smaller number than those that the call may leave.
          refine .inl ⟨m, Report.mem_moments hleft.base.holds.since hm fun hbefore => ?_, hstarted⟩
          have hlt := hs.base.holds.numbers m hbefore started hstarted
          rw [← heq] at hblamed
          exact absurd hlt (Nat.not_lt_of_le hblamed)
        · exact .inr ⟨job, hjob, heq ▸ hflight⟩

theorem finish_audited (ailing : Prop) (hw : w.Idle) (hfree : ∀ lockKey, w.locks.isHeld lockKey = false)
    (hwell : (w.faults = [] ∧ ∀ k, Binds cs k → w.entities.Textual k) ∨ ailing)
    (hengine : engine.Obeys (Op.Allowed False)) (hcs : ∀ c ∈ cs, c.Obeys (Op.Allowed False))
    (hreturned : ∀ r ∈ (start w).run engine depth cs, r.result.isSome) :
    Audited engine ailing (Binds cs) ((start w).run engine depth cs) ((start w).finish engine depth cs) := by
  have hon (c) (hc : c ∈ cs) : c.On (Binds cs) := by
    cases c with
    | bind process key => exact ⟨process, hc⟩
    | _ => trivial
  have hfinish := finish_induction engine depth cs []
    (J := Audited engine ailing (Binds cs)) (K := fun _ => True) (fun _ _ _ => trivial)
    (fun past s c hc hs hsome => hs.step hengine (hcs c hc) (hon c hc) hsome) (fun _ _ _ _ _ _ => trivial)
    (Audited.start ailing (Binds cs) hw hfree hwell)
  exact hfinish.2 hreturned

/--
Let a run start idle and with all locks free, and let its calls return. When the lock of a field is held at its
end, and no job for the field waits, then the transition that took it is one of another field with the same lock
key, whose job waits; or it was started by a call that returned an error, or its job was run by one, or an event
has told since then that something failed on its field. Without faults, and while the fields hold texts, each
lock that is held goes with a job that waits.
-/
theorem run_accounts (hw : w.Idle) (hfree : ∀ lockKey, w.locks.isHeld lockKey = false)
    (hengine : engine.Obeys (Op.Allowed False)) (hcs : ∀ c ∈ cs, c.Obeys (Op.Allowed False))
    (hreturned : ∀ r ∈ (start w).run engine depth cs, r.result.isSome) :
    (∀ k : StateKey,
      ((start w).finish engine depth cs).world.locks.isHeld (k.lockKey engine.config.lockPrefix) = true →
      (∀ job ∈ ((start w).finish engine depth cs).world.pending, job.key ≠ k) →
      ∃ s later, ((start w).finish engine depth cs).world.TookLast engine.config.lockPrefix
          (k.lockKey engine.config.lockPrefix) s later ∧
        ((s.key ≠ k ∧ ∃ job ∈ ((start w).finish engine depth cs).world.pending, job.flight? = some s.flight) ∨
          (∃ r ∈ (start w).run engine depth cs, r.Failed ∧ r.Concerns s) ∨ s.Told later)) ∧
    (w.faults = [] →
      (∀ scene ∈ w.toScene :: ((start w).finish engine depth cs).world.scenes, ∀ k, Binds cs k →
        scene.entities.Textual k) →
      ∀ lockKey, ((start w).finish engine depth cs).world.locks.isHeld lockKey = true →
        ∃ job ∈ ((start w).finish engine depth cs).world.pending,
          job.key.lockKey engine.config.lockPrefix = lockKey) := by
  have hkey {job : Job} {s : Started} (hflight : job.flight? = some s.flight) : job.key = s.key := by
    obtain ⟨-, -, -, heq⟩ := Job.finish_of_flight hflight
    exact (congrArg Flight.key heq).symm
  refine ⟨fun k hheld hnone => ?_, fun hfaults htext lockKey hheld => ?_⟩
  · have haudited := finish_audited True hw hfree (.inr trivial) hengine hcs hreturned
    obtain ⟨s, later, htook, hwho⟩ := haudited.base.holds.locks _ hheld
    refine ⟨s, later, htook, ?_⟩
    rcases hwho with hs | ⟨job, hjob, hflight⟩ | ⟨-, hs⟩
    · exact absurd hs List.not_mem_nil
    · exact .inl ⟨hkey hflight ▸ hnone job hjob, job, hjob, hflight⟩
    · exact .inr hs
  · have haudited := finish_audited False hw hfree
      (.inl ⟨hfaults, htext w.toScene (List.mem_cons_self ..)⟩) hengine hcs hreturned
    obtain ⟨s, later, htook, hwho⟩ := haudited.base.holds.locks lockKey hheld
    rcases hwho with hs | ⟨job, hjob, hflight⟩ | ⟨hailing, -⟩
    · exact absurd hs List.not_mem_nil
    · exact ⟨job, hjob, hkey hflight ▸ htook.1⟩
    · obtain ⟨m, hm, k, hk, hno⟩ := hailing.resolve_left id
      refine absurd (htext m.scene ?_ k hk) hno
      exact List.mem_cons_of_mem _ (List.mem_cons_of_mem _ (List.mem_map_of_mem hm))

/-- The locker with a lock store that cannot release once. -/
def jammed : World :=
  { Locker.world .inline with faults := [⟨.release, 0, .fails "jammed"⟩] }

theorem jammed_accounts : ∃ s later,
    ((start jammed).finish (Locker.engine []) 2 (Locker.calls [])).world.TookLast Config.standard.lockPrefix
      (Locker.field.lockKey Config.standard.lockPrefix) s later ∧
    ((∃ r ∈ (start jammed).run (Locker.engine []) 2 (Locker.calls []), r.Failed ∧ r.Concerns s) ∨
      s.Told later) := by
  have hnone : ((start jammed).finish (Locker.engine []) 2 (Locker.calls [])).world.pending = [] := by
    decide +kernel
  have hidle : jammed.Idle := ⟨rfl, rfl, rfl⟩
  have hreturned : ∀ r ∈ (start jammed).run (Locker.engine []) 2 (Locker.calls []), r.result.isSome := by
    decide +kernel
  obtain ⟨s, later, htook, hwho⟩ := (run_accounts hidle (fun _ => rfl) (Locker.engine_obeys (List.forall_mem_nil _))
    (Locker.calls_obey (List.forall_mem_nil _)) hreturned).1 Locker.field (by decide +kernel)
      (by rw [hnone]; exact List.forall_mem_nil _)
  refine ⟨s, later, htook, hwho.resolve_left ?_⟩
  rintro ⟨-, job, hjob, -⟩
  exact List.not_mem_nil (hnone ▸ hjob)

/-- Two fields with one lock key: a zero byte of one is the mark between the parts of the other. -/
def twins : List StateKey :=
  [⟨"a", "x", "f\x00g"⟩, ⟨"a\x00f", "x", "g"⟩]

def twinsWorld : World :=
  { World.start .queue (.new 16) with
    entities := ⟨[⟨"a", "x", [("f\x00g", .str "open")]⟩, ⟨"a\x00f", "x", [("g", .str "open")]⟩]⟩ }

/-- Both are bound, and the first is locked. -/
def twinsCalls : List Call :=
  (twins.map fun k => .bind (Locker.process []) k) ++ [.invoke 0 "lock" none .empty]

theorem binds_twins {k : StateKey} : Binds twinsCalls k ↔ k ∈ twins := by
  simp [Binds, twinsCalls, eq_comm]

theorem twinsCalls_obey {allowed : Op → Prop} : ∀ c ∈ twinsCalls, c.Obeys allowed := by
  simp [twinsCalls, twins, Call.Obeys, Locker.process_obeys]

/-- The lock of a field may be held while no job for the field waits, though nothing has failed and no event told
of a failure. -/
theorem run_leaks_twin :
    ¬ ∀ (engine : Engine) (depth : Nat) (w : World) (cs : List Call) (k : StateKey),
      engine.config.lockTtl ≠ 0 → w.Idle → (∀ lockKey, w.locks.isHeld lockKey = false) → w.faults = [] →
      engine.Obeys (fun _ => False) → (∀ c ∈ cs, c.Obeys (fun _ => False)) →
      (∀ r ∈ (start w).run engine depth cs, r.result.isSome) → Binds cs k →
      ((start w).finish engine depth cs).world.locks.isHeld (k.lockKey engine.config.lockPrefix) = true →
      (∀ job ∈ ((start w).finish engine depth cs).world.pending, job.key ≠ k) →
      ∃ s later, ((start w).finish engine depth cs).world.TookLast engine.config.lockPrefix
          (k.lockKey engine.config.lockPrefix) s later ∧
        ((∃ r ∈ (start w).run engine depth cs, r.Failed ∧ r.Concerns s) ∨ s.Told later) := by
  intro h
  obtain ⟨s, later, htook, ⟨r, hr, hfailed, -⟩ | htold⟩ :=
    h (Locker.engine []) 2 twinsWorld twinsCalls ⟨"a\x00f", "x", "g"⟩ (by decide) ⟨rfl, rfl, rfl⟩ (fun _ => rfl) rfl
      (Locker.engine_obeys (List.forall_mem_nil _)) twinsCalls_obey (by decide +kernel)
      (binds_twins.2 (by decide)) (by decide +kernel) (by decide +kernel)
  · obtain ⟨e, he⟩ := hfailed
    have hok : ∀ r ∈ (start twinsWorld).run (Locker.engine []) 2 twinsCalls, r.result = some (.ok ()) := by
      decide +kernel
    cases (hok r hr).symm.trans he
  · obtain ⟨m, hm, hfailure⟩ := htold.exists
    have hquiet : ∀ m ∈ ((start twinsWorld).finish (Locker.engine []) 2 twinsCalls).world.journal,
        m.entry.tellsFailure = false := by
      decide +kernel
    obtain ⟨-, -, m', earlier, -, hjournal⟩ := htook
    have hmem := hquiet m (hjournal ▸ List.mem_append_left _ hm)
    exact Bool.false_ne_true (hmem.symm.trans hfailure)

end System

end Workflow
