import Workflow.Proofs.LockLeaks
import Workflow.Proofs.ToldWrites

/-!
# The audit trail of a field

While no store call fails and every bound process is used once, the changes told of a field are its history:
each starts from where the one before it ended, and the store holds the end of the last. Between a write and
its event nothing else happens.
-/

namespace Workflow

/-! ## Chains of changes -/

namespace Change

/-- Each change starts from where the one before it ended, and the first from `state`. -/
def Linked : String → List Change → Prop
  | _, [] => True
  | state, c :: cs => c.source = some state ∧ Linked c.target cs

/-- Where the changes end, when they start from `state`. -/
def final : String → List Change → String
  | state, [] => state
  | _, c :: cs => final c.target cs

@[simp] theorem final_append (state : String) (cs : List Change) (c : Change) :
    final state (cs ++ [c]) = c.target := by
  induction cs generalizing state with
  | nil => rfl
  | cons c' cs ih => exact ih c'.target

theorem linked_append {state : String} {cs : List Change} {c : Change} :
    Linked state (cs ++ [c]) ↔ Linked state cs ∧ c.source = some (final state cs) := by
  induction cs generalizing state with
  | nil => simp [Linked, final]
  | cons c' cs ih => simp [Linked, final, ih, and_assoc]

end Change

/-- The change of the field that the entry tells. -/
def Entry.change? (K : StateKey) : Entry → Option Change
  | .emitted e => e.change? K
  | _ => none

theorem Entry.change?_of_isQuiet {e : Entry} (h : e.isQuiet = true) (K : StateKey) : e.change? K = none := by
  cases e with
  | emitted e => exact Event.change?_of_isChange (by simpa [isQuiet] using h) K
  | _ => rfl

/-- The changes told of a field in these moments, of which the latest comes first. -/
def Moment.changes (K : StateKey) (moments : List Moment) : List Change :=
  moments.reverse.filterMap fun m => m.entry.change? K

theorem Moment.changes_cons (K : StateKey) (m : Moment) (moments : List Moment) :
    changes K (m :: moments) = changes K moments ++ (m.entry.change? K).toList := by
  cases h : m.entry.change? K <;> simp [changes, List.filterMap_append, h]

/-! ## Trails -/

/-- Moments, the latest first, in which the field goes from `state₀` to `state` by changes that are told at once. -/
inductive Trail (K : StateKey) (state₀ : String) : List Moment → String → Prop
  | start : Trail K state₀ [] state₀
  | kept {moments : List Moment} {m : Moment} {state : String} (before : Trail K state₀ moments state)
      (unwritten : m.entry.written? K = none) (untold : m.entry.change? K = none)
      (stored : m.scene.entities.getField K = .ok (.str state)) : Trail K state₀ (m :: moments) state
  | changed {moments : List Moment} {m m' : Moment} {state target action : String} {phase : Phase}
      (before : Trail K state₀ moments state) (written : m.entry = .wrote K (.str target))
      (stored : m.scene.entities.getField K = .ok (.str target))
      (told : m'.entry = .emitted ⟨K, action, .stateChanged (some state) target phase⟩)
      (stored' : m'.scene.entities.getField K = .ok (.str target)) :
      Trail K state₀ (m' :: m :: moments) target

/--
The field holds what it was told to have been changed to by then, or it has just been written, and the next
thing that happens is the event that tells so.
-/
def Moment.Agrees (K : StateKey) (state₀ : String) (later : List Moment) (m : Moment)
    (earlier : List Moment) : Prop :=
  m.scene.entities.getField K = .ok (.str (Change.final state₀ (changes K (m :: earlier)))) ∨
    ∃ source target action phase after next, m.entry = .wrote K (.str target) ∧
      m.scene.entities.getField K = .ok (.str target) ∧ later = after ++ [next] ∧
      next.entry = .emitted ⟨K, action, .stateChanged source target phase⟩

theorem Moment.Agrees.cons {K : StateKey} {state₀ : String} {later earlier : List Moment} {m : Moment}
    (h : m.Agrees K state₀ later earlier) (latest : Moment) :
    m.Agrees K state₀ (latest :: later) earlier := by
  rcases h with h | ⟨source, target, action, phase, after, next, hwrote, hstored, hlater, htold⟩
  · exact .inl h
  · exact .inr ⟨source, target, action, phase, latest :: after, next, hwrote, hstored, by simp [hlater], htold⟩

namespace Trail

variable {K : StateKey} {state₀ state : String} {moments : List Moment}

theorem changes_changed {m m' : Moment} {source : Option String} {target action : String} {phase : Phase}
    (hwrote : m.entry = .wrote K (.str target))
    (htold : m'.entry = .emitted ⟨K, action, .stateChanged source target phase⟩) :
    Moment.changes K (m' :: m :: moments) = Moment.changes K moments ++ [⟨source, target⟩] := by
  simp [Moment.changes_cons, hwrote, htold, Entry.change?, Event.change?]

theorem linked (h : Trail K state₀ moments state) :
    Change.Linked state₀ (Moment.changes K moments) ∧
      Change.final state₀ (Moment.changes K moments) = state := by
  induction h with
  | start => exact ⟨trivial, rfl⟩
  | kept _ _ huntold _ ih => simpa [Moment.changes_cons, huntold] using ih
  | changed _ hwrote _ htold _ ih =>
      rw [changes_changed hwrote htold]
      exact ⟨Change.linked_append.2 ⟨ih.1, by rw [ih.2]⟩, Change.final_append _ _ _⟩

theorem agrees (h : Trail K state₀ moments state) {later earlier : List Moment} {m : Moment}
    (heq : moments = later ++ m :: earlier) : m.Agrees K state₀ later earlier := by
  induction h generalizing later with
  | start => simp at heq
  | kept hbefore hunwritten huntold hstored ih =>
      cases later with
      | nil =>
          cases heq
          rw [← (Trail.kept hbefore hunwritten huntold hstored).linked.2] at hstored
          exact .inl hstored
      | cons latest later =>
          cases heq
          exact (ih rfl).cons _
  | changed hbefore hwrote hstored htold hstored' ih =>
      cases later with
      | nil =>
          cases heq
          rw [← (Trail.changed hbefore hwrote hstored htold hstored').linked.2] at hstored'
          exact .inl hstored'
      | cons latest later =>
          cases later with
          | nil =>
              -- The field has just been written; the event is the only later moment.
              cases heq
              exact .inr ⟨_, _, _, _, [], _, hwrote, hstored, rfl, htold⟩
          | cons latest' later =>
              cases heq
              exact ((ih rfl).cons _).cons _

end Trail

/-! ## Following the field -/

/-- The journal is a trail of the field to what the store holds, and the events tell of the same changes. -/
structure World.Follows (K : StateKey) (state₀ state : String) (w : World) : Prop where
  trail : Trail K state₀ w.journal state
  stored : w.entities.getField K = .ok (.str state)
  told : w.bus.changes K = Moment.changes K w.journal

namespace World.Follows

variable {K : StateKey} {state₀ state : String} {w w' : World}

theorem moved (h : w.Follows K state₀ state) (hjournal : w'.journal = w.journal := by rfl)
    (hentities : w'.entities = w.entities := by rfl) (hbus : w'.bus = w.bus := by rfl) :
    w'.Follows K state₀ state :=
  ⟨hjournal ▸ h.trail, hentities ▸ h.stored, hbus ▸ hjournal ▸ h.told⟩

/-- Something else happens, which leaves the field alone. -/
theorem passed (h : w.Follows K state₀ state) {e : Entry} (hjournal : w'.journal = ⟨e, w'.toScene⟩ :: w.journal)
    (hunwritten : e.written? K = none) (huntold : e.change? K = none)
    (hstored : w'.entities.getField K = w.entities.getField K)
    (hchanges : w'.bus.changes K = w.bus.changes K) : w'.Follows K state₀ state := by
  have hstored' := hstored.trans h.stored
  refine ⟨?_, hstored', ?_⟩
  · rw [hjournal]
    exact h.trail.kept hunwritten huntold hstored'
  · simp [hchanges, h.told, hjournal, Moment.changes_cons, huntold]

theorem quiet {engine : Engine} {k : StateKey} (h : w.Follows K state₀ state)
    (hquiet : Quiet engine k w w') : w'.Follows K state₀ state := by
  obtain hjournal | ⟨e, he, hjournal⟩ := hquiet.journal
  · refine ⟨hjournal ▸ h.trail, hquiet.entities ▸ h.stored, ?_⟩
    rw [hquiet.changes, hjournal, h.told]
  · exact h.passed hjournal (Entry.written?_of_isQuiet he K) (Entry.change?_of_isQuiet he K)
      (by rw [hquiet.entities]) (hquiet.changes K)

theorem wrote {key : StateKey} {value : Json} {entities : EntityStore} (h : w.Follows K state₀ state)
    (hset : w.entities.setField key value = .ok entities) (hkey : key ≠ K) :
    (w.write entities key value).Follows K state₀ state :=
  h.passed rfl (if_neg hkey) rfl (EntityStore.getField_setField_of_ne hset hkey) rfl

theorem removed {kind id : String} (h : w.Follows K state₀ state) (hne : ¬ (kind = K.kind ∧ id = K.id)) :
    (w.remove kind id).Follows K state₀ state :=
  h.passed rfl rfl rfl (EntityStore.getField_congr (by
    change Option.map _ ((w.entities.remove kind id).find? K.kind K.id) = _
    rw [w.entities.find?_remove_of_ne hne])) rfl

/-- A transition writes the field and tells so, from what the store held before. -/
theorem changed {value : String} {entities : EntityStore} (h : w.Follows K state₀ state)
    (hset : w.entities.setField K (.str value) = .ok entities) (action : String) (phase : Phase) :
    ((w.rewrite entities K value).emit ⟨K, action, .stateChanged (some state) value phase⟩).Follows K state₀
      value := by
  have hstored := EntityStore.getField_setField_self hset
  refine ⟨h.trail.changed rfl hstored rfl hstored, hstored, ?_⟩
  simp [World.emit, World.record, EventBus.changes_emit, World.rewrite, World.struck, World.write,
    Moment.changes_cons, Entry.change?, Event.change?]
  exact h.told

/-- A transition on another field writes that one and tells so. -/
theorem elsewhere {k : StateKey} {value : String} {entities : EntityStore} (h : w.Follows K state₀ state)
    (hset : w.entities.setField k (.str value) = .ok entities) (hk : k ≠ K) (source : Option String)
    (action : String) (phase : Phase) :
    ((w.rewrite entities k value).emit ⟨k, action, .stateChanged source value phase⟩).Follows K state₀
      state := by
  have hwrote : (w.rewrite entities k value).Follows K state₀ state := (h.wrote hset hk).moved
  have huntold : Event.change? K ⟨k, action, .stateChanged source value phase⟩ = none := if_neg hk
  refine hwrote.passed rfl rfl huntold rfl ?_
  simp [World.emit, World.record, EventBus.changes_emit, huntold]

end World.Follows

/-- The field is followed, unless the entity has held no text at some moment. -/
def World.Audits (K : StateKey) (state₀ : String) (w : World) : Prop :=
  w.faults = [] ∧ (Ailing False (· = K) w ∨ ∃ state, w.Follows K state₀ state)

namespace World.Audits

variable {K : StateKey} {state₀ : String} {w w' : World}

theorem next (h : w.Audits K state₀) (hfaults : w.faults = [] → w'.faults = [])
    (hjournal : w.journal <:+ w'.journal)
    (hfollows : ∀ {state}, w.Follows K state₀ state → ∃ state', w'.Follows K state₀ state') :
    w'.Audits K state₀ :=
  ⟨hfaults h.1, h.2.imp (.lasting hjournal) fun ⟨_, h⟩ => hfollows h⟩

theorem moved (h : w.Audits K state₀) (hfaults : w'.faults = w.faults := by rfl)
    (hjournal : w'.journal = w.journal := by rfl) (hentities : w'.entities = w.entities := by rfl)
    (hbus : w'.bus = w.bus := by rfl) : w'.Audits K state₀ :=
  h.next (fun hnil => hfaults.trans hnil) (hjournal ▸ List.suffix_rfl)
    fun hfollows => ⟨_, hfollows.moved hjournal hentities hbus⟩

theorem quiet {engine : Engine} {k : StateKey} (h : w.Audits K state₀) (hquiet : Quiet engine k w w') :
    w'.Audits K state₀ := by
  apply h.next hquiet.faults_nil
  · obtain hjournal | ⟨e, -, hjournal⟩ := hquiet.journal
    · exact hjournal ▸ List.suffix_rfl
    · exact hjournal ▸ List.suffix_cons _ _
  · exact fun hfollows => ⟨_, hfollows.quiet hquiet⟩

/-- When the entity itself is removed, the field holds no text from then on. -/
theorem removed (h : w.Audits K state₀) (kind id : String) : (w.remove kind id).Audits K state₀ := by
  by_cases hsame : kind = K.kind ∧ id = K.id
  · obtain ⟨rfl, rfl⟩ := hsame
    refine ⟨h.1, .inl (.inr ⟨_, List.mem_cons_self .., K, rfl, ?_⟩)⟩
    rintro ⟨e, state, he, -⟩
    have hnone := w.entities.find?_remove_self K.kind K.id
    cases he.symm.trans hnone
  · exact h.next (fun hnil => hnil) (List.suffix_cons _ _) fun hfollows => ⟨_, hfollows.removed hsame⟩

end World.Audits

/-- A view that remembers the field `K` as it is in the store. -/
def View.Sees (K : StateKey) (v : View) (w : World) : Prop :=
  v.key = K → ∀ e value, v.memo = some e → w.entities.getField K = .ok value → e.get? K.field = some value

/-- The watch that follows the field `K`. -/
def auditing (engine : Engine) (serves : StateKey → Transition → Prop) (K : StateKey) (state₀ : String)
    (hspares : engine.Spares serves K) : Watch engine where
  holds := World.Audits K state₀
  keys _ := True
  serves := serves
  allows := Op.Spares engine serves K
  keeps _ := True
  sees := View.Sees K
  legit _ _ := True
  calm := True
  faultless _ h := h.1
  obeys {k t} ht := hspares k t ht
  invoked hop hp := hop.invoked hp
  writes _ _ := trivial
  recalled _ _ := trivial
  fresh hnone := ⟨trivial, fun w _ e value he => nomatch hnone.symm.trans he⟩
  seen hsame h hkey e value he hvalue := h hkey e value he (hsame ▸ hvalue)
  read := by
    rintro v w e he -
    refine ⟨trivial, ?_⟩
    rintro rfl _ value ⟨⟩ hvalue
    obtain ⟨e', he', hfield⟩ := EntityStore.getField_eq_ok hvalue
    cases he.symm.trans he'
    exact hfield
  quiet _ hquiet h := h.quiet hquiet
  queued _ h := h.moved
  pooled _ h := h.moved
  switched _ h := h.moved
  wrote _ hop hvalue hset h :=
    h.next id (List.suffix_cons _ _) fun hfollows => ⟨_, hfollows.wrote hset (hop.ne hvalue)⟩
  removed _ _ h := h.removed _ _
  changed := by
    intro v w entities value source action phase _ _ hsees hknown hset h
    have hlater : w.journal <:+ ((w.rewrite entities v.key value).emit
        ⟨v.key, action, .stateChanged source value phase⟩).journal :=
      (List.suffix_cons _ _).trans (List.suffix_cons _ _)
    apply h.next (fun hnil => by simp [World.emit, World.record, World.rewrite, World.struck, World.write, hnil])
      hlater
    intro state hfollows
    by_cases hkey : v.key = K
    · subst hkey
      obtain ⟨hsome, hsource⟩ := hknown trivial
      obtain ⟨e, he⟩ := Option.isSome_iff_exists.1 hsome
      -- The view sees the field, so that the source that is told is what the store held.
      have hstate := hsource state ⟨e, he, hsees rfl e _ he hfollows.stored⟩
      rw [hstate]
      exact ⟨value, hfollows.changed hset action phase⟩
    · exact ⟨state, hfollows.elsewhere hset hkey source action phase⟩
  lost _ _ _ hstrike h := by
    rw [h.1] at hstrike
    cases hstrike

namespace System

variable {engine : Engine} {depth : Nat} {cs : List Call} {w : World}

/--
Let a run start idle and with nothing told, from a field `K` that holds a text, and let it hold one at each
moment; no store call is to fail, each bound process is used once, and no command of a transition that serves
a field writes `K`. Then the changes told of `K` are linked, from the text that it held at first to the one
that it holds in the end, and at each moment it holds what the changes told by then have made of it, but for
the moment between a write and its event.
-/
theorem run_audits {serves : StateKey → Transition → Prop} {K : StateKey} {state₀ : String} (hw : w.Idle)
    (hlog : w.bus.log = []) (hfaults : w.faults = []) (hstored : w.entities.getField K = .ok (.str state₀))
    (hspares : engine.Spares serves K)
    (hcs : ∀ r ∈ (start w).run engine depth cs, r.Within serves ∧ r.Fresh)
    (htext : ∀ scene ∈ ((start w).finish engine depth cs).world.scenes, scene.entities.Textual K) :
    let last := ((start w).finish engine depth cs).world
    Change.Linked state₀ (last.bus.changes K) ∧
      last.entities.getField K = .ok (.str (Change.final state₀ (last.bus.changes K))) ∧
      last.bus.changes K = Moment.changes K last.journal ∧
      ∀ later m earlier, last.journal = later ++ m :: earlier → m.Agrees K state₀ later earlier := by
  intro last
  let I := auditing engine serves K state₀ hspares
  have hstart : I.holds w := by
    refine ⟨hfaults, .inr ⟨state₀, ?_, hstored, ?_⟩⟩
    · exact hw.journal ▸ .start
    · simp [EventBus.changes, hlog, hw.journal, Moment.changes]
  have hsuits (r) (hr : r ∈ (start w).run engine depth cs) : I.Suits r :=
    ⟨(hcs r hr).1, fun b hb => (I.fresh ((hcs r hr).2 b hb)).2 _⟩
  have hfinish : last.Audits K state₀ := Watch.finish_holds (I := I) (s := start w)
    ⟨fun _ => trivial, fun _ _ h => h.moved⟩ (.start ⟨hstart, hw.jobless _⟩) depth hsuits
  obtain ⟨-, hailing | ⟨state, hfollows⟩⟩ := hfinish
  · obtain ⟨m, hm, k, rfl, hno⟩ := hailing.resolve_left id
    exact absurd (htext m.scene (List.mem_cons_of_mem _ (List.mem_map_of_mem hm))) hno
  · obtain ⟨hlinked, hfinal⟩ := hfollows.trail.linked
    rw [← hfollows.told] at hlinked hfinal
    rw [hfinal]
    exact ⟨hlinked, hfollows.stored, hfollows.told, fun later m earlier heq => hfollows.trail.agrees heq⟩

theorem sealed_audits :
    let last := ((start (Locker.world .queue)).finish (Locker.engine []) 3 Locker.sealedCalls).world
    last.bus.changes Locker.field =
      [⟨some "open", "locked"⟩, ⟨some "locked", "sealing"⟩, ⟨some "sealing", "sealed"⟩] ∧
    Change.Linked "open" (last.bus.changes Locker.field) ∧
      last.entities.getField Locker.field =
        .ok (.str (Change.final "open" (last.bus.changes Locker.field))) ∧
      last.bus.changes Locker.field = Moment.changes Locker.field last.journal ∧
      ∀ later m earlier, last.journal = later ++ m :: earlier →
        m.Agrees Locker.field "open" later earlier := by
  refine ⟨by decide +kernel, ?_⟩
  apply run_audits ⟨rfl, rfl, rfl⟩ rfl rfl rfl Locker.engine_spares
  · have hfresh : ∀ r ∈ (start (Locker.world .queue)).run (Locker.engine []) 3 Locker.sealedCalls, r.Fresh := by
      decide +kernel
    exact fun r hr => ⟨Locker.sealed_within r hr, hfresh r hr⟩
  · decide +kernel

end System

end Workflow
