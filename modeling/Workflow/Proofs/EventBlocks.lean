import Workflow.Proofs.Courses
import Workflow.Proofs.Executors
import Workflow.Proofs.LockLeaks

/-!
# The story of a lock

While no store call fails and the fields hold texts, what is told of a field is a sequence of blocks, one for
each transition. The last may be cut off behind its opening: its job waits then, and the lock is held for it.
-/

namespace Workflow

/-- What is told of a field, but for locks that others held. -/
def EventBus.about (bus : EventBus) (k : StateKey) : List Event :=
  bus.log.filter fun e => e.key = k ∧ e.kind ≠ .lockRejected

namespace EventBus

variable {bus : EventBus} {k : StateKey} {e : Event}

theorem about_emit (hkey : e.key = k) (hkind : e.kind ≠ .lockRejected) :
    (bus.emit e).about k = bus.about k ++ [e] := by
  simp [about, hkey, hkind]

theorem about_emit_ne (hkey : e.key ≠ k) : (bus.emit e).about k = bus.about k := by
  simp [about, hkey]

theorem about_emit_rejected (hkind : e.kind = .lockRejected) : (bus.emit e).about k = bus.about k := by
  simp [about, hkind]

end EventBus

def Opening.events (k : StateKey) (action : String) (o : Opening) : List Event :=
  o.kinds.map fun kind => ⟨k, action, kind⟩

def Leg.events (l : Leg) : List Event :=
  l.told.map l.event

/-- Blocks are told of the field, and behind them what the transition has told that is under way. -/
def EventBus.Tells (bus : EventBus) (k : StateKey) (leg : Option Leg) : Prop :=
  ∃ blocks : List Block, bus.about k = blocks.flatMap (Block.events k) ++ (leg.map Leg.events).getD []

namespace EventBus.Tells

variable {bus : EventBus} {k : StateKey} {leg : Leg}

theorem begun (h : bus.Tells k none) (flight : Flight) (t : Transition) :
    bus.Tells k (some ⟨flight, t, []⟩) :=
  h

theorem after (h : bus.Tells leg.flight.key (some leg)) {kind : EventKind} (hkind : kind ≠ .lockRejected) :
    (bus.emit (leg.event kind)).Tells leg.flight.key (some (leg.after [kind])) := by
  obtain ⟨blocks, h⟩ := h
  refine ⟨blocks, ?_⟩
  rw [about_emit (k := leg.flight.key) (e := leg.event kind) rfl hkind, h]
  simp [Leg.events, Leg.event]

theorem ended (h : bus.Tells leg.flight.key (some leg)) (hover : leg.Over) :
    bus.Tells leg.flight.key none := by
  obtain ⟨blocks, h⟩ := h
  obtain ⟨o, ending, htold⟩ := hover
  refine ⟨blocks ++ [⟨leg.transition.action, o, ending⟩], ?_⟩
  rw [h]
  simp [Leg.events, htold, Block.events, Block.kinds]
  rfl

end EventBus.Tells

/-! ## Locks, jobs and what is told -/

/-- The job of a transition whose commands leave locks alone and start nothing. -/
abbrev Job.Opens (keys : StateKey → Prop) (leg : Leg) (job : Job) : Prop :=
  job.Bears (Op.Allowed False) keys (fun _ => True) (fun _ => True) leg

theorem Job.Opens.key_eq {keys : StateKey → Prop} {leg : Leg} {job : Job} (h : job.Opens keys leg) :
    job.key = leg.flight.key := by
  obtain ⟨-, -, -, hflight⟩ := Job.finish_of_flight h.flight
  rw [hflight]

/-- Each lock that is held is that of the transition under way or of a job that waits, and each of these tells
of a field of its own. -/
structure Tale (p : String) (keys : StateKey → Prop) (locks : LockStore) (bus : EventBus) (jobs : List Job)
    (current : Option Leg) : Prop where
  held : ∀ L, locks.isHeld L = true ↔
    (∃ leg, current = some leg ∧ .unlocked ∉ leg.told ∧ leg.flight.key.lockKey p = L) ∨
      ∃ job ∈ jobs, job.key.lockKey p = L
  apart : ∀ leg, current = some leg → ∀ job ∈ jobs, job.key.lockKey p ≠ leg.flight.key.lockKey p
  distinct : (jobs.map fun job => job.key.lockKey p).Nodup
  tells : ∀ leg, current = some leg → bus.Tells leg.flight.key (some leg)
  waiting : ∀ job ∈ jobs, ∃ leg, job.Opens keys leg ∧ bus.Tells job.key (some leg)
  rest : ∀ k, (∀ leg, current = some leg → leg.flight.key ≠ k) → (∀ job ∈ jobs, job.key ≠ k) →
    bus.Tells k none

namespace Tale

variable {p : String} {keys : StateKey → Prop} {locks : LockStore} {bus : EventBus} {jobs jobs' : List Job}
  {current : Option Leg} {leg : Leg} {job : Job}

theorem permuted (h : Tale p keys locks bus jobs current) (hperm : jobs'.Perm jobs) :
    Tale p keys locks bus jobs' current where
  held L := by simp only [h.held, hperm.mem_iff]
  apart leg hleg job hjob := h.apart leg hleg job (hperm.mem_iff.1 hjob)
  distinct := ((hperm.map _).nodup_iff).2 h.distinct
  tells := h.tells
  waiting job hjob := h.waiting job (hperm.mem_iff.1 hjob)
  rest k hcurrent hjobs := h.rest k hcurrent fun job hjob => hjobs job (hperm.mem_iff.2 hjob)

theorem rejected (h : Tale p keys locks bus jobs current) {e : Event} (he : e.kind = .lockRejected) :
    Tale p keys locks (bus.emit e) jobs current := by
  have hsame (k : StateKey) (leg : Option Leg) : bus.Tells k leg → (bus.emit e).Tells k leg :=
    fun ⟨blocks, h⟩ => ⟨blocks, (EventBus.about_emit_rejected he).trans h⟩
  refine ⟨h.held, h.apart, h.distinct, fun leg hleg => hsame _ _ (h.tells leg hleg), fun job hjob => ?_,
    fun k hcurrent hjobs => hsame _ _ (h.rest k hcurrent hjobs)⟩
  obtain ⟨leg, hopens, htells⟩ := h.waiting job hjob
  exact ⟨leg, hopens, hsame _ _ htells⟩

/-- The transition under way tells something of its field, and of no other. -/
theorem told (h : Tale p keys locks bus jobs (some leg)) {locks' : LockStore} {kind : EventKind}
    (hkind : kind ≠ .lockRejected)
    (hlocks : ∀ L, locks'.isHeld L = true ↔
      (.unlocked ∉ (leg.after [kind]).told ∧ leg.flight.key.lockKey p = L) ∨
        ∃ job ∈ jobs, job.key.lockKey p = L) :
    Tale p keys locks' (bus.emit (leg.event kind)) jobs (some (leg.after [kind])) := by
  have hother {k : StateKey} {leg' : Option Leg} (hk : leg.flight.key ≠ k) (h : bus.Tells k leg') :
      (bus.emit (leg.event kind)).Tells k leg' := by
    obtain ⟨blocks, h⟩ := h
    exact ⟨blocks, (EventBus.about_emit_ne hk).trans h⟩
  refine ⟨fun L => by simp [hlocks], ?_, h.distinct, ?_, fun job hjob => ?_, fun k hcurrent hjobs => ?_⟩
  · rintro _ ⟨⟩ job hjob
    exact h.apart leg rfl job hjob
  · rintro _ ⟨⟩
    exact (h.tells leg rfl).after hkind
  · obtain ⟨leg', hopens, htells⟩ := h.waiting job hjob
    exact ⟨leg', hopens, hother (fun heq => h.apart leg rfl job hjob (heq ▸ rfl)) htells⟩
  · have hk := hcurrent _ rfl
    exact hother hk (h.rest k (by rintro _ ⟨⟩; exact hk) hjobs)

theorem ended (h : Tale p keys locks bus jobs (some leg)) (hover : leg.Over) :
    Tale p keys locks bus jobs none := by
  have hunlocked := hover.unlocked
  refine ⟨fun L => by simp [h.held, hunlocked], nofun, h.distinct, nofun, h.waiting, fun k _ hjobs => ?_⟩
  by_cases hk : leg.flight.key = k
  · exact hk ▸ (h.tells leg rfl).ended hover
  · exact h.rest k (by rintro _ ⟨⟩; exact hk) hjobs

theorem started (h : Tale p keys locks bus jobs none) (flight : Flight) (t : Transition) {ttl : Nat}
    (httl : ttl ≠ 0) (hfree : locks.isHeld (flight.key.lockKey p) = false) :
    Tale p keys (locks.acquire (flight.key.lockKey p) ttl).2 bus jobs (some ⟨flight, t, []⟩) := by
  have hjobs (job) (hjob : job ∈ jobs) : job.key.lockKey p ≠ flight.key.lockKey p := fun heq => by
    rw [(h.held _).2 (.inr ⟨job, hjob, heq⟩)] at hfree
    cases hfree
  refine ⟨fun L => ?_, ?_, h.distinct, ?_, h.waiting, fun k _ => h.rest k nofun⟩
  · by_cases hL : flight.key.lockKey p = L
    · subst hL
      simp [LockStore.isHeld_acquire_self _ _ httl]
    · rw [LockStore.isHeld_acquire_ne _ _ (Ne.symm hL), h.held]
      simp [hL]
  · rintro _ ⟨⟩
    exact hjobs
  · rintro _ ⟨⟩
    exact (h.rest flight.key nofun fun job hjob heq => hjobs job hjob (heq ▸ rfl)).begun flight t

theorem queued (h : Tale p keys locks bus jobs (some leg)) (hopens : job.Opens keys leg) :
    Tale p keys locks bus (job :: jobs) none := by
  have hlocked := hopens.opened.locked
  refine ⟨fun L => ?_, nofun, ?_, nofun, List.forall_mem_cons.2 ⟨⟨leg, hopens, ?_⟩, h.waiting⟩,
    fun k _ hjobs => ?_⟩
  · simp [h.held, hlocked, hopens.key_eq]
  · refine List.nodup_cons.2 ⟨fun hmem => ?_, h.distinct⟩
    obtain ⟨job', hjob', heq⟩ := List.mem_map.1 hmem
    exact h.apart leg rfl job' hjob' (heq.trans (congrArg (·.lockKey p) hopens.key_eq))
  · exact hopens.key_eq ▸ h.tells leg rfl
  · obtain ⟨hjob, hjobs⟩ := List.forall_mem_cons.1 hjobs
    exact h.rest k (by rintro _ ⟨⟩; exact hopens.key_eq ▸ hjob) hjobs

theorem taken (h : Tale p keys locks bus (job :: jobs) none) :
    ∃ leg, job.Opens keys leg ∧ Tale p keys locks bus jobs (some leg) := by
  obtain ⟨leg, hopens, htells⟩ := h.waiting job (List.mem_cons_self ..)
  have hlocked := hopens.opened.locked
  obtain ⟨hnew, hdistinct⟩ := List.nodup_cons.1 h.distinct
  refine ⟨leg, hopens, fun L => ?_, ?_, hdistinct, ?_, fun j hj => h.waiting j (List.mem_cons_of_mem _ hj),
    fun k hcurrent hjobs => ?_⟩
  · simp [h.held, hlocked, hopens.key_eq]
  · rintro _ ⟨⟩ j hj heq
    exact hnew (List.mem_map.2 ⟨j, hj, heq.trans (congrArg (·.lockKey p) hopens.key_eq.symm)⟩)
  · rintro _ ⟨⟩
    exact hopens.key_eq ▸ htells
  · refine h.rest k nofun (List.forall_mem_cons.2 ⟨?_, hjobs⟩)
    rw [hopens.key_eq]
    exact hcurrent leg rfl

end Tale

/-! ## The course that is told -/

/-- The executor runs or keeps every job, or refuses every one. -/
def Executor.Takes (accepts : Bool) : Executor → Prop
  | inline | detaching | queue | pool => accepts = true
  | rejecting _ => accepts = false
  | varying first rest => first.Takes accepts ∧ rest.Takes accepts

/-- As long as no field has failed to hold a text, locks, jobs and what is told go together. -/
structure Narrated (p : String) (accepts : Bool) (keys : StateKey → Prop) (legs : List Leg) (w : World) :
    Prop where
  executor : w.executor.Takes accepts
  jobs : ∀ job ∈ w.pending, accepts = true ∧ ∃ leg, job.Opens keys leg
  well : (w.faults = [] ∧ ∀ k, keys k → w.entities.Textual k) ∨ Ailing False keys w
  tale : ¬ Ailing False keys w →
    ∃ current, legs = current.toList ∧ Tale p keys w.locks w.bus w.pending current

namespace Narrated

variable {p : String} {accepts : Bool} {keys : StateKey → Prop} {legs legs' : List Leg} {leg : Leg}
  {current : Option Leg} {job : Job} {w w' : World} {e : Entry}

theorem current_eq (h : leg :: legs = current.toList) : current = some leg ∧ legs = [] := by
  cases current with
  | none => cases h
  | some leg' =>
      cases h
      exact ⟨rfl, rfl⟩

theorem next (h : Narrated p accepts keys legs w) (hexecutor : w'.executor.Takes accepts)
    (hjobs : ∀ job ∈ w'.pending, job ∈ w.pending ∨ accepts = true ∧ ∃ leg, job.Opens keys leg)
    (hwell : (w'.faults = [] ∧ ∀ k, keys k → w'.entities.Textual k) ∨ Ailing False keys w')
    (hjournal : w.journal <:+ w'.journal)
    (htale : ∀ current, legs = current.toList → Tale p keys w.locks w.bus w.pending current →
      ∃ current, legs' = current.toList ∧ Tale p keys w'.locks w'.bus w'.pending current) :
    Narrated p accepts keys legs' w' := by
  refine ⟨hexecutor, fun job hjob => (hjobs job hjob).elim (h.jobs job) id, hwell, fun hnot => ?_⟩
  obtain ⟨current, hlegs, h⟩ := h.tale fun hailing => hnot (hailing.lasting hjournal)
  exact htale current hlegs h

theorem recorded (h : Narrated p accepts keys legs w)
    (htale : ∀ current, legs = current.toList → Tale p keys w.locks w.bus w.pending current →
      ∃ current, legs' = current.toList ∧ Tale p keys w'.locks w'.bus w'.pending current)
    (hjournal : w'.journal = w.journal := by rfl) (hfaults : w'.faults = w.faults := by rfl)
    (hexecutor : w'.executor = w.executor := by rfl) (hpending : w'.pending = w.pending := by rfl) :
    Narrated p accepts keys legs' (w'.record e) := by
  refine h.next ?_ (fun _ hjob => .inl (hpending ▸ hjob)) (Ailing.recorded h.well hjournal hfaults)
    (hjournal ▸ List.suffix_cons _ _) htale
  exact hexecutor ▸ h.executor

theorem noted (h : Narrated p accepts keys legs w) (hjournal : w'.journal = w.journal := by rfl)
    (hfaults : w'.faults = w.faults := by rfl) (hexecutor : w'.executor = w.executor := by rfl)
    (hpending : w'.pending = w.pending := by rfl) (hlocks : w'.locks = w.locks := by rfl)
    (hbus : w'.bus = w.bus := by rfl) : Narrated p accepts keys legs (w'.record e) :=
  h.recorded (fun current hlegs h => ⟨current, hlegs, by rw [hlocks, hbus, hpending]; exact h⟩) hjournal
    hfaults hexecutor hpending

/-- Where a field has failed to hold a text, nothing more is said. -/
theorem failed (h : Narrated p accepts keys legs w) (hailing : Ailing False keys w) {event : Event} :
    Narrated p accepts keys legs' (w.emit event) := by
  have hlasts : Ailing False keys (w.emit event) := hailing.lasting (List.suffix_cons _ _)
  exact ⟨h.executor, h.jobs, .inr hlasts, fun hwell => absurd hlasts hwell⟩

theorem moved (h : Narrated p accepts keys legs w) (hexecutor : w'.executor.Takes accepts)
    (hjobs : ∀ job ∈ w'.pending, job ∈ w.pending ∨ accepts = true ∧ ∃ leg, job.Opens keys leg)
    (htale : ∀ current, legs = current.toList → Tale p keys w.locks w.bus w.pending current →
      ∃ current, legs' = current.toList ∧ Tale p keys w'.locks w'.bus w'.pending current)
    (hfaults : w.faults = [] → w'.faults = []) (hjournal : w'.journal = w.journal := by rfl)
    (hentities : w'.entities = w.entities := by rfl) : Narrated p accepts keys legs' w' := by
  have hsuffix : w.journal <:+ w'.journal := hjournal ▸ List.suffix_rfl
  refine h.next hexecutor hjobs ?_ hsuffix htale
  exact h.well.imp (fun hwell => ⟨hfaults hwell.1, hentities ▸ hwell.2⟩) (.lasting hsuffix)

theorem queued (h : Narrated p accepts keys (leg :: legs) w) (haccepts : accepts = true)
    (hopens : job.Opens keys leg) (hpending : w'.pending.Perm (job :: w.pending))
    (hexecutor : w'.executor = w.executor := by rfl) (hfaults : w'.faults = w.faults := by rfl)
    (hjournal : w'.journal = w.journal := by rfl) (hentities : w'.entities = w.entities := by rfl)
    (hlocks : w'.locks = w.locks := by rfl) (hbus : w'.bus = w.bus := by rfl) :
    Narrated p accepts keys legs w' := by
  refine h.moved (hexecutor ▸ h.executor) (fun j hj => ?_) (fun current hlegs htale => ?_) (hfaults.trans ·)
    hjournal hentities
  · cases List.mem_cons.1 (hpending.mem_iff.1 hj) with
    | inl heq => exact .inr ⟨haccepts, leg, heq ▸ hopens⟩
    | inr hj => exact .inl hj
  · obtain ⟨rfl, rfl⟩ := current_eq hlegs
    exact ⟨none, rfl, by rw [hlocks, hbus]; exact (htale.queued hopens).permuted hpending⟩

theorem taken (h : Narrated p accepts keys [] w) {queue pool : List Job}
    (hperm : w.pending.Perm (job :: (queue ++ pool))) :
    accepts = true ∧ ∃ leg, job.Opens keys leg ∧
      Narrated p accepts keys [leg] { w with queue := queue, pool := pool } := by
  obtain ⟨haccepts, leg, hopens⟩ := h.jobs job (hperm.symm.mem_iff.1 (List.mem_cons_self ..))
  have hrest (j) (hj : j ∈ queue ++ pool) : j ∈ w.pending :=
    hperm.symm.mem_iff.1 (List.mem_cons_of_mem _ hj)
  refine ⟨haccepts, ?_⟩
  by_cases hailing : Ailing False keys w
  · exact ⟨leg, hopens, h.executor, fun j hj => h.jobs j (hrest j hj), .inr hailing,
      fun hwell => absurd hailing hwell⟩
  · obtain ⟨current, hlegs, htale⟩ := h.tale hailing
    obtain rfl := Option.toList_eq_nil_iff.1 hlegs.symm
    obtain ⟨leg, hopens, htale⟩ := (htale.permuted hperm.symm).taken
    exact ⟨leg, hopens, h.executor, fun j hj => h.jobs j (hrest j hj), h.well,
      fun _ => ⟨some leg, rfl, htale⟩⟩

theorem told (h : Narrated p accepts keys (leg :: legs) w) {kind : EventKind} (hkind : kind ≠ .lockRejected)
    (hunlocked : kind ≠ .unlocked) :
    Narrated p accepts keys (leg.after [kind] :: legs) (w.emit (leg.event kind)) := by
  refine h.recorded fun current hlegs htale => ?_
  obtain ⟨rfl, rfl⟩ := current_eq hlegs
  refine ⟨some _, rfl, htale.told hkind fun L => ?_⟩
  simpa [hunlocked.symm] using htale.held L

theorem unlocked (h : Narrated p accepts keys (leg :: legs) w) :
    Narrated p accepts keys (leg.after [.unlocked] :: legs)
      ((w.unlock (leg.flight.key.lockKey p)).emit (leg.event .unlocked)) := by
  have hwell : _ ∨ Ailing False keys (w.unlock (leg.flight.key.lockKey p)) := Ailing.recorded h.well
  refine h.next h.executor (fun _ => .inl) (Ailing.recorded hwell)
    ((List.suffix_cons _ _).trans (List.suffix_cons _ _)) fun current hlegs htale => ?_
  obtain ⟨rfl, rfl⟩ := current_eq hlegs
  refine ⟨some _, rfl, htale.told nofun fun L => ?_⟩
  change (w.locks.release _).isHeld L = true ↔ _
  by_cases hL : L = leg.flight.key.lockKey p
  · subst hL
    simpa [LockStore.isHeld_release_self] using htale.apart leg rfl
  · rw [LockStore.isHeld_release_ne _ hL, htale.held]
    simp [Ne.symm hL]

theorem ended (h : Narrated p accepts keys (leg :: legs) w) (hover : leg.Over) :
    Narrated p accepts keys legs w := by
  refine h.moved h.executor (fun _ => .inl) (fun current hlegs htale => ?_) id
  obtain ⟨rfl, rfl⟩ := current_eq hlegs
  exact ⟨none, rfl, htale.ended hover⟩

theorem started (h : Narrated p accepts keys [] w) (s : Started) {ttl : Nat} (httl : ttl ≠ 0)
    (hfree : w.locks.isHeld (s.key.lockKey p) = false) :
    Narrated p accepts keys [⟨s.flight, s.transition, []⟩]
      (((w.lock (s.key.lockKey p) ttl).takeOff s.key).record (.started s)) := by
  have hwell : _ ∨ Ailing False keys (w.lock (s.key.lockKey p) ttl) := Ailing.recorded h.well
  refine h.next h.executor (fun _ => .inl) (Ailing.recorded hwell)
    ((List.suffix_cons _ _).trans (List.suffix_cons _ _)) fun current hlegs htale => ?_
  obtain rfl := Option.toList_eq_nil_iff.1 hlegs.symm
  exact ⟨some _, rfl, htale.started s.flight s.transition httl hfree⟩

end Narrated

/-- The course of runs whose commands leave locks alone and start nothing. -/
def narrating (engine : Engine) (accepts : Bool) (keys : StateKey → Prop) (httl : engine.config.lockTtl ≠ 0) :
    Course engine where
  holds := Narrated engine.config.lockPrefix accepts keys
  allows := Op.Allowed False
  keys := keys
  travels _ := True
  roots _ := True
  executors := Executor.Takes accepts
  excuse := Ailing False keys
  runs := accepts = true
  refuses := accepts = false
  nests := False
  lasting := .lasting
  excused h := h.well
  inserted _ _ _ _ := trivial
  failing _ _ _ := trivial
  resumed _ _ := trivial
  varied h := h
  running h := h.elim id id
  rejecting h := h
  executor h := h.executor
  struck _ h := h.moved h.executor (fun _ => .inl) (fun current hlegs htale => ⟨current, hlegs, htale⟩)
    fun hnil => by rw [World.struck, hnil]; rfl
  remarked _ h := h.noted
  wrote _ h := h.noted
  removed _ _ h := h.noted
  switched _ hexecutor h :=
    h.moved hexecutor (fun _ => .inl) (fun current hlegs htale => ⟨current, hlegs, htale⟩) id
  turnedAway _ _ h := h.recorded fun current hlegs htale => ⟨current, hlegs, htale.rejected rfl⟩
  started s _ _ _ _ _ _ hfree halone h := by
    obtain rfl := halone.resolve_right id
    exact h.started s httl hfree
  told _ hkind hunlocked h := h.told hkind hunlocked
  landed h := h.noted
  unlocked h := h.unlocked
  ended hover h := h.ended hover
  queued {_ _ w} job hjob haccepts h := h.queued haccepts hjob (w.pending_queued job)
  pooled {_ _ w} job hjob haccepts h := h.queued haccepts hjob (w.pending_pooled job)
  reported _ _ _ hruns hexcuse h :=
    h.failed (hexcuse.resolve_right fun hrefuses => Bool.false_ne_true (hrefuses.symm.trans hruns))
  abandoned _ _ _ hexcuse _ h := h.failed hexcuse
  acquired := False.elim
  freed := False.elim
  invoked := False.elim

theorem narrating_called (engine : Engine) (accepts : Bool) (keys : StateKey → Prop)
    (httl : engine.config.lockTtl ≠ 0) : (narrating engine accepts keys httl).Called where
  taken hperm h := h.taken hperm
  dropped hexcuse h := ⟨h.executor, h.jobs, h.well, fun hwell => absurd hexcuse hwell⟩

/-! ## Runs -/

namespace System

variable {engine : Engine} {depth : Nat} {cs : List Call} {w : World} {accepts : Bool}

theorem finish_narrated (httl : engine.config.lockTtl ≠ 0) (hw : w.Idle) (hlog : w.bus.log = [])
    (hfree : ∀ lockKey, w.locks.isHeld lockKey = false) (hfaults : w.faults = [])
    (htext : ∀ k, Binds cs k → w.entities.Textual k) (hexecutor : w.executor.Takes accepts)
    (hengine : engine.Obeys (Op.Allowed False)) (hcs : ∀ c ∈ cs, c.Obeys (Op.Allowed False))
    (hreturned : ∀ r ∈ (start w).run engine depth cs, r.result.isSome) :
    Narrated engine.config.lockPrefix accepts (Binds cs) [] ((start w).finish engine depth cs).world := by
  let I := narrating engine accepts (Binds cs) httl
  have hpending : (start w).world.pending = [] := hw.pending
  have hsuits (c) (hc : c ∈ cs) : I.Suits c := by
    cases c with
    | bind process key => exact ⟨⟨hcs _ hc, trivial⟩, process, hc⟩
    | change i transition context => exact ⟨hcs _ hc, trivial, trivial⟩
    | _ => trivial
  have htale : Tale engine.config.lockPrefix (Binds cs) w.locks w.bus [] none :=
    ⟨fun L => by simp [hfree], nofun, List.nodup_nil, nofun, List.forall_mem_nil _,
      fun k _ _ => ⟨[], by simp [EventBus.about, hlog]⟩⟩
  have hstart : I.Tended (start w) := by
    refine ⟨⟨hexecutor, ?_, .inl ⟨hfaults, htext⟩, fun _ => ⟨none, rfl, ?_⟩⟩, List.forall_mem_nil _,
      List.forall_mem_nil _, List.forall_mem_nil _⟩
    · exact hpending ▸ List.forall_mem_nil _
    · exact hpending ▸ htale
  have hfinish := finish_induction engine depth cs [] (J := fun _ => I.Tended) (K := fun _ => True)
    (fun _ _ _ => trivial)
    (fun past s c hc hs hsome =>
      (Course.perform_left (narrating_called ..) hs hengine depth (hsuits c hc)).2 hsome)
    (fun _ _ _ _ _ _ => trivial) hstart
  exact (hfinish.2 hreturned).holds

/--
Let a run start idle, with all locks free and nothing told, and let its calls return; no store call fails,
and the fields hold texts throughout. What is told of a field, but for locks that others held, is a sequence
of blocks, of which the last may be cut off behind its opening. It is cut off exactly if a job for the field
waits. The lock of the field is held exactly if a job waits whose field has the same lock key.
-/
theorem run_tells (httl : engine.config.lockTtl ≠ 0) (hw : w.Idle) (hlog : w.bus.log = [])
    (hfree : ∀ lockKey, w.locks.isHeld lockKey = false) (hfaults : w.faults = [])
    (hexecutor : w.executor.Takes accepts) (hengine : engine.Obeys (Op.Allowed False))
    (hcs : ∀ c ∈ cs, c.Obeys (Op.Allowed False))
    (hreturned : ∀ r ∈ (start w).run engine depth cs, r.result.isSome)
    (htext : ∀ scene ∈ w.toScene :: ((start w).finish engine depth cs).world.scenes, ∀ k, Binds cs k →
      scene.entities.Textual k) (k : StateKey) :
    ∃ (blocks : List Block) (cut : Option (String × Opening)),
      ((start w).finish engine depth cs).world.bus.about k =
        blocks.flatMap (Block.events k) ++ (cut.map fun c => c.2.events k c.1).getD [] ∧
      (cut.isSome ↔ ∃ job ∈ ((start w).finish engine depth cs).world.pending, job.key = k) ∧
      (((start w).finish engine depth cs).world.locks.isHeld (k.lockKey engine.config.lockPrefix) = true ↔
        ∃ job ∈ ((start w).finish engine depth cs).world.pending,
          job.key.lockKey engine.config.lockPrefix = k.lockKey engine.config.lockPrefix) := by
  have hnarrated := finish_narrated httl hw hlog hfree hfaults (htext w.toScene (List.mem_cons_self ..))
    hexecutor hengine hcs hreturned
  obtain ⟨current, hnone, htale⟩ := hnarrated.tale <| by
    rintro (h | ⟨m, hm, k, hk, hno⟩)
    · exact h
    · refine hno (htext m.scene ?_ k hk)
      exact List.mem_cons_of_mem _ (List.mem_cons_of_mem _ (List.mem_map_of_mem hm))
  obtain rfl := Option.toList_eq_nil_iff.1 hnone.symm
  have hheld := htale.held (k.lockKey engine.config.lockPrefix)
  simp only [reduceCtorEq, false_and, exists_false, false_or] at hheld
  by_cases hjob : ∃ job ∈ ((start w).finish engine depth cs).world.pending, job.key = k
  · obtain ⟨job, hmem, rfl⟩ := hjob
    obtain ⟨leg, hopens, blocks, htells⟩ := htale.waiting job hmem
    obtain ⟨o, htold⟩ := hopens.opened
    refine ⟨blocks, some (leg.transition.action, o), ?_, ⟨fun _ => ⟨job, hmem, rfl⟩, fun _ => rfl⟩, hheld⟩
    rw [htells, hopens.key_eq]
    simp [Leg.events, Leg.event, htold, Opening.events]
  · obtain ⟨blocks, htells⟩ := htale.rest k nofun fun job hmem hkey => hjob ⟨job, hmem, hkey⟩
    exact ⟨blocks, none, htells, ⟨nofun, fun h => absurd h hjob⟩, hheld⟩

/-- The locker is locked, and the transition that seals it waits for its job. -/
def sealingCalls : List Call :=
  [.bind Locker.sealing Locker.field, .invoke 0 "lock" none .empty, .run 0]

def sealingFinish : System :=
  (start (Locker.world .queue)).finish (Locker.engine []) 3 sealingCalls

theorem sealing_tells : sealingFinish.world.pending.length = 1 ∧
    ∃ (blocks : List Block) (cut : Option (String × Opening)),
      sealingFinish.world.bus.about Locker.field =
        blocks.flatMap (Block.events Locker.field) ++ (cut.map fun c => c.2.events Locker.field c.1).getD [] ∧
      (cut.isSome ↔ ∃ job ∈ sealingFinish.world.pending, job.key = Locker.field) ∧
      (sealingFinish.world.locks.isHeld (Locker.field.lockKey Config.standard.lockPrefix) = true ↔
        ∃ job ∈ sealingFinish.world.pending,
          job.key.lockKey Config.standard.lockPrefix = Locker.field.lockKey Config.standard.lockPrefix) := by
  have hbinds (k : StateKey) (hk : Binds sealingCalls k) : k = Locker.field := by
    simpa [Binds, sealingCalls] using hk
  have hqueue : (Locker.world .queue).executor.Takes true := rfl
  refine ⟨by decide +kernel, ?_⟩
  refine run_tells (by decide) ⟨rfl, rfl, rfl⟩ rfl (fun _ => rfl) rfl hqueue
    (Locker.engine_obeys (List.forall_mem_nil _)) ?_ (by decide +kernel) (fun scene hscene k hk => ?_) _
  · simp [sealingCalls, Call.Obeys, Locker.sealing_obeys]
  · rw [hbinds k hk]
    revert scene
    decide +kernel

/-- The lock of a field may be held while no job for the field waits. -/
theorem run_holds_twin :
    ¬ ∀ (engine : Engine) (depth : Nat) (w : World) (cs : List Call) (k : StateKey),
      engine.config.lockTtl ≠ 0 → w.Idle → w.bus.log = [] → (∀ lockKey, w.locks.isHeld lockKey = false) →
      w.faults = [] → w.executor.Takes true → engine.Obeys (fun _ => False) →
      (∀ c ∈ cs, c.Obeys (fun _ => False)) → (∀ r ∈ (start w).run engine depth cs, r.result.isSome) →
      (∀ scene ∈ w.toScene :: ((start w).finish engine depth cs).world.scenes, ∀ k, Binds cs k →
        scene.entities.Textual k) → Binds cs k →
      ((start w).finish engine depth cs).world.locks.isHeld (k.lockKey engine.config.lockPrefix) = true →
      ∃ job ∈ ((start w).finish engine depth cs).world.pending, job.key = k := by
  intro h
  have hwaits := h (Locker.engine []) 2 twinsWorld twinsCalls ⟨"a\x00f", "x", "g"⟩ (by decide)
    ⟨rfl, rfl, rfl⟩ rfl (fun _ => rfl) rfl rfl (Locker.engine_obeys (List.forall_mem_nil _)) ?_ (by decide +kernel) ?_
    (binds_twins.2 (by decide)) (by decide +kernel)
  · revert hwaits
    decide +kernel
  · exact twinsCalls_obey
  · simp only [binds_twins]
    decide +kernel

end System

end Workflow
