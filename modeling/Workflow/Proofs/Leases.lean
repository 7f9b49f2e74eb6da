import Mathlib.Data.Finset.Card
import Mathlib.Data.List.Nodup
import Workflow.Store.Locks

/-!
# One holder of a key

Any number of calls of a lock store, on any keys and in any order. A key is given out only while nobody holds it, stays
with its holder until it is released, and is given out by the calls on that key alone; the store counts the keys that
are held.
-/

namespace Workflow

inductive LockCall
  | acquire (key : String) (ttl : Nat)
  | release (key : String)
  | isHeld (key : String)
  | heldCount
deriving DecidableEq, Repr

inductive LockAnswer
  | done
  | flag (value : Bool)
  | count (n : Nat)
deriving DecidableEq, Repr

namespace LockCall

variable {s s' : LockStore} {key : String} {call : LockCall}

def key? : LockCall → Option String
  | acquire key _ | release key | isHeld key => some key
  | heldCount => none

/-- What a call answers, and the store behind it. -/
def perform (s : LockStore) : LockCall → LockAnswer × LockStore
  | acquire key ttl => (.flag (s.acquire key ttl).1, (s.acquire key ttl).2)
  | release key => (.done, s.release key)
  | isHeld key => (.flag (s.isHeld key), s)
  | heldCount => (.count s.heldCount, s)

/-! ## Keys beside one another -/

theorem lease?_perform_ne (h : call.key? ≠ some key) (s : LockStore) :
    (call.perform s).2.lease? key = s.lease? key := by
  cases call with
  | acquire other ttl => exact s.lease?_acquire_ne ttl fun heq => h (congrArg some heq.symm)
  | release other => exact s.lease?_release_ne fun heq => h (congrArg some heq.symm)
  | isHeld other => rfl
  | heldCount => rfl

/-- Stores with one lease of the key give one answer to a call on it, and have one lease of it again. -/
theorem perform_agrees (h : call.key? = some key) (hs : s.lease? key = s'.lease? key) :
    (call.perform s).1 = (call.perform s').1 ∧ (call.perform s).2.lease? key = (call.perform s').2.lease? key := by
  have hheld : s.isHeld key = s'.isHeld key := by rw [LockStore.isHeld, hs, LockStore.isHeld]
  cases call with
  | acquire other ttl =>
      cases h
      simp only [perform, LockStore.acquire_fst, LockStore.lease?_acquire_self, hheld, hs, and_self]
  | release other =>
      cases h
      simp only [perform, LockStore.lease?_release_self, and_self]
  | isHeld other =>
      cases h
      simp only [perform, hheld, hs, and_self]
  | heldCount => cases h

/-! ## One key -/

/-- A call leaves a key held or free as it was, unless it releases the key or is the first to acquire it. -/
theorem isHeld_perform_cases (s : LockStore) (call : LockCall) (key : String) :
    (call.perform s).2.isHeld key = s.isHeld key ∨
      (call = .release key ∧ (call.perform s).2.isHeld key = false) ∨
      ∃ ttl, call = .acquire key ttl ∧ s.isHeld key = false := by
  by_cases hkey : call.key? = some key
  · cases call with
    | acquire other ttl =>
        cases hkey
        cases hs : s.isHeld key with
        | false => exact .inr (.inr ⟨ttl, rfl, rfl⟩)
        | true => exact .inl (by simp [perform, LockStore.acquire, hs])
    | release other =>
        cases hkey
        exact .inr (.inl ⟨rfl, s.isHeld_release_self key⟩)
    | isHeld other => exact .inl rfl
    | heldCount => exact .inl rfl
  · exact .inl (by rw [LockStore.isHeld, lease?_perform_ne hkey, ← LockStore.isHeld])

/-- A key that is held stays so until it is released. -/
theorem isHeld_perform (h : call ≠ .release key) (hs : s.isHeld key = true) :
    (call.perform s).2.isHeld key = true := by
  obtain hsame | ⟨hrelease, -⟩ | ⟨ttl, -, hfree⟩ := isHeld_perform_cases s call key
  · exact hsame.trans hs
  · exact absurd hrelease h
  · rw [hs] at hfree
    cases hfree

/-- A key that nobody holds stays so until it is acquired. -/
theorem not_isHeld_perform (h : ∀ ttl, call ≠ .acquire key ttl) (hs : s.isHeld key = false) :
    (call.perform s).2.isHeld key = false := by
  obtain hsame | ⟨-, hfree⟩ | ⟨ttl, hacquire, -⟩ := isHeld_perform_cases s call key
  · exact hsame.trans hs
  · exact hfree
  · exact absurd hacquire (h ttl)

end LockCall

namespace LockStore

variable {s : LockStore} {key : String} {calls more : List LockCall}

def after (s : LockStore) (calls : List LockCall) : LockStore :=
  calls.foldl (fun s call => (call.perform s).2) s

/-- What a call answers when these calls have been made of a new store. -/
def answer (calls : List LockCall) (call : LockCall) : LockAnswer :=
  (call.perform (empty.after calls)).1

/-- The lease of a key is left by the calls on it alone. -/
theorem lease?_after_filter {s s' : LockStore} (hs : s.lease? key = s'.lease? key) (calls : List LockCall) :
    (s.after calls).lease? key = (s'.after (calls.filter fun call => call.key? = some key)).lease? key := by
  -- The two stores go apart at the first call on another key; what they share is the lease of this one.
  induction calls generalizing s s' with
  | nil => exact hs
  | cons call calls ih =>
      by_cases hkey : call.key? = some key
      · rw [List.filter_cons_of_pos (by simpa using hkey)]
        exact ih (LockCall.perform_agrees hkey hs).2
      · rw [List.filter_cons_of_neg (by simpa using hkey)]
        exact ih ((LockCall.lease?_perform_ne hkey s).trans hs)

theorem isHeld_after (hs : s.isHeld key = true) (hmore : .release key ∉ more) :
    (s.after more).isHeld key = true := by
  induction more generalizing s with
  | nil => exact hs
  | cons call more ih =>
      obtain ⟨hcall, hmore⟩ := not_or.1 (fun h => hmore (List.mem_cons.2 h))
      exact ih (LockCall.isHeld_perform (Ne.symm hcall) hs) hmore

theorem not_isHeld_after (hs : s.isHeld key = false) (hmore : ∀ ttl, .acquire key ttl ∉ more) :
    (s.after more).isHeld key = false := by
  induction more generalizing s with
  | nil => exact hs
  | cons call more ih =>
      refine ih (LockCall.not_isHeld_perform (fun ttl hcall => ?_) hs) fun ttl h => hmore ttl (.tail _ h)
      exact hmore ttl (hcall ▸ .head _)

/-! ## The number of keys -/

def heldKeys (s : LockStore) : Finset String :=
  ((s.leases.filter fun l => isLive l.2).map Prod.fst).toFinset

/-- There is one lease of a key at most. -/
def Single (s : LockStore) : Prop :=
  (s.leases.map Prod.fst).Nodup

namespace Single

theorem release (h : s.Single) (key : String) : (s.release key).Single :=
  List.Nodup.sublist (List.Sublist.map _ List.filter_sublist) h

theorem acquire (h : s.Single) (key : String) (ttl : Nat) : (s.acquire key ttl).2.Single := by
  unfold LockStore.acquire
  split
  · exact h
  · refine List.nodup_cons.2 ⟨fun hmem => ?_, h.release key⟩
    obtain ⟨lease, hlease, hkey⟩ := List.mem_map.1 hmem
    simp [LockStore.release, hkey] at hlease

theorem perform (h : s.Single) (call : LockCall) : (call.perform s).2.Single := by
  cases call with
  | acquire key ttl => exact h.acquire key ttl
  | release key => exact h.release key
  | isHeld key => exact h
  | heldCount => exact h

theorem after (h : s.Single) (calls : List LockCall) : (s.after calls).Single := by
  induction calls generalizing s with
  | nil => exact h
  | cons call calls ih => exact ih (h.perform call)

theorem lease?_eq_some (h : s.Single) {ttl : Nat} : s.lease? key = some ttl ↔ (key, ttl) ∈ s.leases := by
  rw [lease?, Option.map_eq_some_iff]
  constructor
  · rintro ⟨lease, hfind, rfl⟩
    have hkey : lease.1 = key := by simpa using List.find?_some hfind
    exact hkey ▸ List.mem_of_find?_eq_some hfind
  · intro hmem
    have hsome : (s.leases.find? fun l => l.1 == key).isSome := List.find?_isSome.2 ⟨_, hmem, by simp⟩
    obtain ⟨lease, hfind⟩ := Option.isSome_iff_exists.1 hsome
    have hkey : lease.1 = key := by simpa using List.find?_some hfind
    have hsame : lease = (key, ttl) := List.inj_on_of_nodup_map h (List.mem_of_find?_eq_some hfind) hmem hkey
    exact ⟨lease, hfind, congrArg Prod.snd hsame⟩

theorem isHeld_iff (h : s.Single) : s.isHeld key ↔ ∃ ttl, (key, ttl) ∈ s.leases ∧ isLive ttl := by
  simp only [← h.lease?_eq_some, isHeld]
  cases s.lease? key <;> simp

theorem mem_heldKeys (h : s.Single) : key ∈ s.heldKeys ↔ s.isHeld key := by
  simp [heldKeys, h.isHeld_iff]

theorem heldCount_eq (h : s.Single) : s.heldCount = s.heldKeys.card := by
  have hlive : ((s.leases.filter fun l => isLive l.2).map Prod.fst).Nodup :=
    List.Nodup.sublist (List.Sublist.map _ List.filter_sublist) h
  rw [heldKeys, List.toFinset_card_of_nodup hlive, List.length_map, heldCount, List.countP_eq_length_filter]

end Single

/-! ## Calls in any order -/

theorem single_after (calls : List LockCall) : (empty.after calls).Single :=
  Single.after (s := empty) List.nodup_nil calls

theorem after_append (calls more : List LockCall) (call : LockCall) :
    empty.after (calls ++ call :: more) = (call.perform (empty.after calls)).2.after more :=
  List.foldl_append

theorem answer_acquire (calls : List LockCall) (key : String) (ttl : Nat) :
    answer calls (.acquire key ttl) = .flag !(empty.after calls).isHeld key :=
  congrArg LockAnswer.flag (acquire_fst _ key ttl)

theorem answer_acquire_iff {ttl : Nat} :
    answer calls (.acquire key ttl) = .flag true ↔ (empty.after calls).isHeld key = false := by
  rw [answer_acquire, LockAnswer.flag.injEq, Bool.not_eq_true']

theorem answers_of_held (h : (empty.after calls).isHeld key = true) :
    answer calls (.isHeld key) = .flag true ∧ ∀ ttl, answer calls (.acquire key ttl) = .flag false := by
  simp only [answer_acquire, h, Bool.not_true, implies_true, and_true]
  exact congrArg LockAnswer.flag h

theorem answers_of_free (h : (empty.after calls).isHeld key = false) :
    answer calls (.isHeld key) = .flag false ∧ ∀ ttl, answer calls (.acquire key ttl) = .flag true := by
  simp only [answer_acquire, h, Bool.not_false, implies_true, and_true]
  exact congrArg LockAnswer.flag h

/-- The answers to the calls of a new store. A key is given out just where it is not held. Behind that, and until it is
released, it is held and not given out again; it is not held, and given out the next time, where its lease was over at
once or it has been released. The answers on a key are those that the calls on it alone would get, whatever was called
on others in between. The store counts the keys that are held. -/
theorem keys_exclusive (calls : List LockCall) (key : String) :
    (∀ ttl, answer calls (.acquire key ttl) = .flag true ↔ answer calls (.isHeld key) = .flag false) ∧
    (∀ ttl more, ttl ≠ 0 → answer calls (.acquire key ttl) = .flag true → .release key ∉ more →
      answer (calls ++ .acquire key ttl :: more) (.isHeld key) = .flag true ∧
        ∀ ttl', answer (calls ++ .acquire key ttl :: more) (.acquire key ttl') = .flag false) ∧
    (∀ more, answer calls (.acquire key 0) = .flag true → (∀ ttl, .acquire key ttl ∉ more) →
      answer (calls ++ .acquire key 0 :: more) (.isHeld key) = .flag false ∧
        ∀ ttl', answer (calls ++ .acquire key 0 :: more) (.acquire key ttl') = .flag true) ∧
    (∀ more, (∀ ttl, .acquire key ttl ∉ more) →
      answer (calls ++ .release key :: more) (.isHeld key) = .flag false ∧
        ∀ ttl', answer (calls ++ .release key :: more) (.acquire key ttl') = .flag true) ∧
    (∀ call : LockCall, call.key? = some key →
      answer calls call = answer (calls.filter fun c => c.key? = some key) call) ∧
    ∃ keys : Finset String, (∀ k, k ∈ keys ↔ answer calls (.isHeld k) = .flag true) ∧
      answer calls .heldCount = .count keys.card := by
  refine ⟨fun ttl => ?_, fun ttl more httl htaken hmore => ?_, fun more htaken hmore => ?_, fun more hmore => ?_,
    fun call hkey => ?_, (empty.after calls).heldKeys, fun k => ?_,
    congrArg LockAnswer.count (single_after calls).heldCount_eq⟩
  · rw [answer_acquire_iff, answer, LockCall.perform, LockAnswer.flag.injEq]
  · refine answers_of_held ?_
    rw [after_append]
    exact isHeld_after (isHeld_acquire_self _ key httl) hmore
  · refine answers_of_free ?_
    rw [after_append]
    exact not_isHeld_after (isHeld_acquire_free _ 0 (answer_acquire_iff.1 htaken)) hmore
  · refine answers_of_free ?_
    rw [after_append]
    exact not_isHeld_after (isHeld_release_self _ key) hmore
  · exact (LockCall.perform_agrees hkey (lease?_after_filter rfl calls)).1
  · rw [(single_after calls).mem_heldKeys, answer, LockCall.perform, LockAnswer.flag.injEq]

/-- A key is taken for no time and taken again; another one is released in between. -/
theorem relet_exclusive :
    let calls : List LockCall := [.acquire "a" 0, .acquire "b" 60]
    let later : List LockCall := [.release "b", .acquire "a" 0, .heldCount]
    answer [] (.acquire "a" 0) = .flag true ∧ answer calls (.acquire "a" 60) = .flag true ∧
      .release "a" ∉ later ∧
      answer (calls ++ .acquire "a" 60 :: later) (.isHeld "a") = .flag true ∧
      answer (calls ++ .acquire "a" 60 :: later) (.acquire "a" 60) = .flag false ∧
      answer (calls ++ [.release "b", .heldCount]) (.isHeld "b") = .flag false := by
  intro calls later
  have hnone : answer [] (.acquire "a" 0) = .flag true := by decide
  have hmore : LockCall.release "a" ∉ later := by decide
  obtain ⟨-, -, hrelet, -⟩ := keys_exclusive [] "a"
  have htaken := (hrelet [.acquire "b" 60] hnone (by simp)).2 60
  obtain ⟨-, hkept, -⟩ := keys_exclusive calls "a"
  obtain ⟨hheld, hrefused⟩ := hkept 60 later (by decide) htaken hmore
  obtain ⟨-, -, -, hreleased, -⟩ := keys_exclusive calls "b"
  exact ⟨hnone, htaken, hmore, hheld, hrefused 60, (hreleased [.heldCount] (by simp)).1⟩

end LockStore

end Workflow
