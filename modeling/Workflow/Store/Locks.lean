/-!
# Lock store

A lock is a lease on a key for a number of seconds. A lease of zero seconds is over as soon as it is
taken; every other one lasts until it is released.
-/

namespace Workflow

structure LockStore where
  /-- The latest lease of each key, in seconds. -/
  leases : List (String × Nat)
deriving DecidableEq, Repr, Inhabited

namespace LockStore

def empty : LockStore := ⟨[]⟩

def lease? (s : LockStore) (key : String) : Option Nat :=
  (s.leases.find? fun l => l.1 == key).map (·.2)

def isLive (ttl : Nat) : Bool :=
  ttl != 0

def isHeld (s : LockStore) (key : String) : Bool :=
  ((s.lease? key).map isLive).getD false

def release (s : LockStore) (key : String) : LockStore :=
  ⟨s.leases.filter fun l => l.1 != key⟩

/-- Takes a key that nobody holds; the answer is whether it was taken. -/
def acquire (s : LockStore) (key : String) (ttl : Nat) : Bool × LockStore :=
  if s.isHeld key then (false, s)
  else (true, ⟨(key, ttl) :: (s.release key).leases⟩)

def heldCount (s : LockStore) : Nat :=
  s.leases.countP fun l => isLive l.2

/-! ## What the operations do to a key -/

theorem lease?_release_self (s : LockStore) (key : String) : (s.release key).lease? key = none := by
  simp [release, lease?, List.find?_eq_none]

theorem isHeld_release_self (s : LockStore) (key : String) : (s.release key).isHeld key = false := by
  simp [isHeld, lease?_release_self]

theorem lease?_release_ne (s : LockStore) {key other : String} (h : other ≠ key) :
    (s.release key).lease? other = s.lease? other := by
  have hagree : (fun l : String × Nat => decide ((l.1 != key) = true ∧ (l.1 == other) = true)) =
      fun l => l.1 == other := by
    funext l
    cases hl : l.1 == other with
    | false => simp
    | true => simp [eq_of_beq hl, h]
  rw [lease?, release, List.find?_filter, hagree, lease?]

theorem isHeld_release_ne (s : LockStore) {key other : String} (h : other ≠ key) :
    (s.release key).isHeld other = s.isHeld other := by
  simp [isHeld, lease?_release_ne s h]

theorem acquire_fst (s : LockStore) (key : String) (ttl : Nat) :
    (s.acquire key ttl).1 = !s.isHeld key := by
  cases h : s.isHeld key <;> simp [acquire, h]

theorem isHeld_acquire_free (s : LockStore) {key : String} (ttl : Nat) (h : s.isHeld key = false) :
    (s.acquire key ttl).2.isHeld key = isLive ttl := by
  simp [acquire, h]
  simp [isHeld, lease?]

theorem isHeld_acquire_self (s : LockStore) (key : String) {ttl : Nat} (h : ttl ≠ 0) :
    (s.acquire key ttl).2.isHeld key = true := by
  cases hk : s.isHeld key
  · simp [isHeld_acquire_free s ttl hk, isLive, h]
  · simp [acquire, hk]

theorem lease?_acquire_self (s : LockStore) (key : String) (ttl : Nat) :
    (s.acquire key ttl).2.lease? key = if s.isHeld key then s.lease? key else some ttl := by
  cases h : s.isHeld key
  · simp [acquire, h]
    simp [lease?]
  · simp [acquire, h]

theorem lease?_acquire_ne (s : LockStore) {key other : String} (ttl : Nat) (h : other ≠ key) :
    (s.acquire key ttl).2.lease? other = s.lease? other := by
  unfold acquire
  split
  · rfl
  · rw [← lease?_release_ne s h]
    simp [lease?, h.symm]

theorem isHeld_acquire_ne (s : LockStore) {key other : String} (ttl : Nat) (h : other ≠ key) :
    (s.acquire key ttl).2.isHeld other = s.isHeld other := by
  rw [isHeld, lease?_acquire_ne s ttl h, isHeld]

end LockStore

end Workflow
