import Mathlib.Data.List.Lex
import Mathlib.Order.Bounds.Basic
import Workflow.Process

/-!
# Whole trees

The states of a process are those of the transitions at every node of its tree. Who looks a process up by name finds
the first of the nodes below the root that have it: a node comes before those nested in it, and these come before its
later siblings. This is the order of the positions that lead to the nodes, compared from the root down.
-/

namespace Workflow

namespace Process

variable {p q node : Process} {ps : List Process} {t : Transition} {name state : String} {path : List Nat}

/-- The node reached from a row of siblings by the given positions, the first of which is that of a sibling. -/
def descendantIn? (ps : List Process) : List Nat → Option Process
  | [] => none
  | i :: path => ps[i]?.bind fun p => p.descendant? path

theorem descendant?_eq_some :
    p.descendant? path = some node ↔ path = [] ∧ p = node ∨ descendantIn? p.nested path = some node := by
  cases path with
  | nil => simp [descendant?, descendantIn?]
  | cons i path => simp [descendant?, descendantIn?]

theorem descendantIn?_cons_eq_some : descendantIn? (p :: ps) path = some node ↔
    (∃ rest, path = 0 :: rest ∧ p.descendant? rest = some node) ∨
      ∃ i rest, path = (i + 1) :: rest ∧ descendantIn? ps (i :: rest) = some node := by
  match path with
  | [] => simp [descendantIn?]
  | 0 :: rest => simp [descendantIn?]
  | (i + 1) :: rest => simp [descendantIn?]

theorem descendantIn?_nil (path : List Nat) : descendantIn? [] path = none := by
  cases path <;> rfl

/-! ## States -/

mutual

theorem mem_allTransitions {p : Process} :
    t ∈ p.allTransitions ↔ ∃ path node, p.descendant? path = some node ∧ t ∈ node.transitions := by
  match p with
  | ⟨name, conditions, permissions, transitions, nested⟩ =>
      simp only [allTransitions, List.mem_append, mem_allTransitionsIn, descendant?_eq_some]
      constructor
      · rintro (ht | ⟨path, node, hnode, ht⟩)
        · exact ⟨[], _, .inl ⟨rfl, rfl⟩, ht⟩
        · exact ⟨path, node, .inr hnode, ht⟩
      · rintro ⟨path, node, ⟨-, rfl⟩ | hnode, ht⟩
        · exact .inl ht
        · exact .inr ⟨path, node, hnode, ht⟩

theorem mem_allTransitionsIn {ps : List Process} :
    t ∈ allTransitionsIn ps ↔ ∃ path node, descendantIn? ps path = some node ∧ t ∈ node.transitions := by
  match ps with
  | [] => simp [allTransitionsIn, descendantIn?_nil]
  | p :: ps =>
      simp only [allTransitionsIn, List.mem_append, mem_allTransitions, mem_allTransitionsIn,
        descendantIn?_cons_eq_some]
      constructor
      · rintro (⟨path, node, hnode, ht⟩ | ⟨_ | ⟨i, path⟩, node, hnode, ht⟩)
        · exact ⟨0 :: path, node, .inl ⟨path, rfl, hnode⟩, ht⟩
        · cases hnode
        · exact ⟨(i + 1) :: path, node, .inr ⟨i, path, rfl, hnode⟩, ht⟩
      · rintro ⟨path, node, ⟨rest, -, hnode⟩ | ⟨i, rest, -, hnode⟩, ht⟩
        · exact .inl ⟨rest, node, hnode, ht⟩
        · exact .inr ⟨i :: rest, node, hnode, ht⟩

end

theorem exists_mem_allTransitions {P : Transition → Prop} : (∃ t ∈ p.allTransitions, P t) ↔
    ∃ path node, p.descendant? path = some node ∧ ∃ t ∈ node.transitions, P t := by
  simp only [mem_allTransitions]
  constructor
  · rintro ⟨t, ⟨path, node, hnode, ht⟩, h⟩
    exact ⟨path, node, hnode, t, ht, h⟩
  · rintro ⟨path, node, hnode, t, ht, h⟩
    exact ⟨t, ⟨path, node, hnode, ht⟩, h⟩

theorem mem_targetStates_iff : state ∈ p.targetStates ↔ ∃ t ∈ p.allTransitions, state ∈ t.writes := by
  rw [targetStates, Names.mem_ofList, List.mem_flatMap]

theorem mem_allStates_iff :
    state ∈ p.allStates ↔ ∃ t ∈ p.allTransitions, state ∈ t.sources ∨ state ∈ t.writes := by
  simp only [allStates, Names.mem_ofList, List.mem_flatMap, List.mem_append]

/-! ## Names -/

/-- Where below the root the nodes of the name stand. -/
def addresses (p : Process) (name : String) : Set (List Nat) :=
  {path | path ≠ [] ∧ ∃ node, p.descendant? path = some node ∧ node.name = name}

def addressesIn (ps : List Process) (name : String) : Set (List Nat) :=
  {path | ∃ node, descendantIn? ps path = some node ∧ node.name = name}

theorem addresses_eq : p.addresses name = addressesIn p.nested name := by
  ext path
  cases path with
  | nil => simp [addresses, addressesIn, descendantIn?]
  | cons i path => simp [addresses, addressesIn, descendant?, descendantIn?]

theorem mem_addressesIn_cons : path ∈ addressesIn (p :: ps) name ↔
    path = [0] ∧ p.name = name ∨
      (∃ rest, path = 0 :: rest ∧ rest ∈ addressesIn p.nested name) ∨
      ∃ i rest, path = (i + 1) :: rest ∧ i :: rest ∈ addressesIn ps name := by
  simp only [addressesIn, Set.mem_ofPred_eq, descendantIn?_cons_eq_some, descendant?_eq_some]
  constructor
  · rintro ⟨node, ⟨rest, rfl, ⟨rfl, rfl⟩ | hnode⟩ | ⟨i, rest, rfl, hnode⟩, hname⟩
    · exact .inl ⟨rfl, hname⟩
    · exact .inr (.inl ⟨rest, rfl, node, hnode, hname⟩)
    · exact .inr (.inr ⟨i, rest, rfl, node, hnode, hname⟩)
  · rintro (⟨rfl, hname⟩ | ⟨rest, rfl, node, hnode, hname⟩ | ⟨i, rest, rfl, node, hnode, hname⟩)
    · exact ⟨p, .inl ⟨[], rfl, .inl ⟨rfl, rfl⟩⟩, hname⟩
    · exact ⟨node, .inl ⟨rest, rfl, .inr hnode⟩, hname⟩
    · exact ⟨node, .inr ⟨i, rest, rfl, hnode⟩, hname⟩

/-- What a search by name among siblings and all below them comes to: the node at the least address, if there is any. -/
inductive FirstIn (ps : List Process) (name : String) : Option Process → Prop
  | found {path : List Nat} {q : Process} (first : IsLeast (addressesIn ps name) path)
      (there : descendantIn? ps path = some q) : FirstIn ps name (some q)
  | absent (nowhere : addressesIn ps name = ∅) : FirstIn ps name none

namespace FirstIn

variable {found : Option Process}

theorem head (hname : p.name = name) : FirstIn (p :: ps) name (some p) := by
  have hpath : [0] ∈ addressesIn (p :: ps) name := mem_addressesIn_cons.2 (.inl ⟨rfl, hname⟩)
  refine .found ⟨hpath, fun path hmem => ?_⟩ rfl
  rcases mem_addressesIn_cons.1 hmem with ⟨rfl, -⟩ | ⟨rest, rfl, -⟩ | ⟨i, rest, rfl, -⟩
  · exact le_rfl
  · exact List.cons_le_cons 0 (not_lt.1 (List.not_lt_nil rest))
  · exact (List.cons_lt_cons_iff.2 (.inl i.succ_pos)).le

theorem below (hname : p.name ≠ name) (h : FirstIn p.nested name (some q)) :
    FirstIn (p :: ps) name (some q) := by
  cases h with
  | @found path _ hfirst hthere =>
      have hpath : 0 :: path ∈ addressesIn (p :: ps) name :=
        mem_addressesIn_cons.2 (.inr (.inl ⟨path, rfl, hfirst.1⟩))
      refine .found ⟨hpath, fun path' hmem => ?_⟩
        (descendantIn?_cons_eq_some.2 (.inl ⟨path, rfl, descendant?_eq_some.2 (.inr hthere)⟩))
      rcases mem_addressesIn_cons.1 hmem with ⟨-, h⟩ | ⟨rest, rfl, hrest⟩ | ⟨i, rest, rfl, -⟩
      · exact absurd h hname
      · exact List.cons_le_cons 0 (hfirst.2 hrest)
      · exact (List.cons_lt_cons_iff.2 (.inl i.succ_pos)).le

/-- What is not found at the first of the siblings, nor below it, is what is found from the second on. -/
theorem beside (hname : p.name ≠ name) (hbelow : FirstIn p.nested name none) (h : FirstIn ps name found) :
    FirstIn (p :: ps) name found := by
  have hmem (path : List Nat) : path ∈ addressesIn (p :: ps) name ↔
      ∃ i rest, path = (i + 1) :: rest ∧ i :: rest ∈ addressesIn ps name := by
    cases hbelow with
    | absent hnowhere => simp [mem_addressesIn_cons, hname, hnowhere]
  cases h with
  | @found path q hfirst hthere =>
      match path with
      | i :: rest =>
        refine .found ⟨(hmem _).2 ⟨i, rest, rfl, hfirst.1⟩, fun path' hpath' => ?_⟩
          (descendantIn?_cons_eq_some.2 (.inr ⟨i, rest, rfl, hthere⟩))
        obtain ⟨j, rest', rfl, hrest'⟩ := (hmem _).1 hpath'
        -- both addresses move on by one sibling, which keeps their order
        have hle := hfirst.2 hrest'
        simpa only [le_iff_lt_or_eq, List.cons_lt_cons_iff, List.cons.injEq, Nat.add_lt_add_iff_right,
          Nat.add_right_cancel_iff] using hle
  | absent hnone =>
      refine .absent (Set.eq_empty_iff_forall_notMem.2 fun path hpath => ?_)
      obtain ⟨i, rest, rfl, hrest⟩ := (hmem path).1 hpath
      simp [hnone] at hrest

theorem eq_some_iff (h : FirstIn ps name found) :
    found = some q ↔ ∃ path, IsLeast (addressesIn ps name) path ∧ descendantIn? ps path = some q := by
  cases h with
  | @found path q' hfirst hthere =>
      constructor
      · rintro ⟨⟩
        exact ⟨path, hfirst, hthere⟩
      · rintro ⟨path', hfirst', hthere'⟩
        rw [← hthere, ← hthere', hfirst.unique hfirst']
  | absent hnowhere =>
      refine iff_of_false nofun ?_
      rintro ⟨path, hfirst, -⟩
      exact hfirst.nonempty.ne_empty hnowhere

theorem eq_none_iff (h : FirstIn ps name found) : found = none ↔ addressesIn ps name = ∅ := by
  cases h with
  | found hfirst hthere => simpa using hfirst.nonempty.ne_empty
  | absent hnowhere => simp [hnowhere]

end FirstIn

mutual

theorem find?_first (name : String) (p : Process) : FirstIn p.nested name (p.find? name) := by
  match p with
  | ⟨_, conditions, permissions, transitions, nested⟩ => exact findIn?_first name nested

theorem findIn?_first (name : String) (ps : List Process) : FirstIn ps name (findIn? name ps) := by
  match ps with
  | [] => exact .absent (by simp [addressesIn, descendantIn?_nil])
  | p :: ps =>
      rw [findIn?_cons]
      split
      · next hname => exact .head hname
      · next hname =>
        have hbelow := find?_first name p
        cases hfound : find? name p with
        | some q => exact .below hname (hfound ▸ hbelow)
        | none => exact .beside hname (hfound ▸ hbelow) (findIn?_first name ps)

end

theorem find?_eq_some : p.find? name = some q ↔
    ∃ path, IsLeast (p.addresses name) path ∧ p.descendant? path = some q := by
  rw [(find?_first name p).eq_some_iff, ← addresses_eq]
  refine exists_congr fun path => and_congr_right fun hfirst => ?_
  simp [descendant?_eq_some, hfirst.1.1]

theorem find?_eq_none : p.find? name = none ↔ p.addresses name = ∅ := by
  rw [(find?_first name p).eq_none_iff, addresses_eq]

/-- The states of a process are the sources of the transitions at every depth of its tree and all that these may write,
its target states are what they may write, both in order and each once. What a name finds is the first node of this
name below the root: a node comes before those nested in it, and siblings come as they are declared. A name finds
nothing exactly where no node below the root has it. -/
theorem tree_covered (p : Process) :
    (∀ state, state ∈ p.allStates ↔
      ∃ path node, p.descendant? path = some node ∧ ∃ t ∈ node.transitions,
        state ∈ t.sources ∨ t.target = some state ∨ t.inProgress = some state ∨ t.failed = some state) ∧
    (∀ state, state ∈ p.targetStates ↔
      ∃ path node, p.descendant? path = some node ∧ ∃ t ∈ node.transitions,
        t.target = some state ∨ t.inProgress = some state ∨ t.failed = some state) ∧
    Names.Ascending p.allStates ∧ Names.Ascending p.targetStates ∧
    (∀ name q, p.find? name = some q ↔
      ∃ path, IsLeast (p.addresses name) path ∧ p.descendant? path = some q) ∧
    ∀ name, p.find? name = none ↔ p.addresses name = ∅ := by
  refine ⟨fun state => ?_, fun state => ?_, Names.ascending_ofList _, Names.ascending_ofList _,
    fun _ _ => find?_eq_some, fun _ => find?_eq_none⟩
  · simp only [mem_allStates_iff, exists_mem_allTransitions, Transition.mem_writes]
  · simp only [mem_targetStates_iff, exists_mem_allTransitions, Transition.mem_writes]

/-- What is nested in an earlier sibling comes before a later sibling of the same name; the root does not count. -/
example :
    let deep : Process := ⟨"billing", [], [], [], [⟨"notes", [], [], [], []⟩]⟩
    let orders : Process := ⟨"orders", [], [], [], [deep]⟩
    let root : Process := ⟨"billing", [], [], [], [orders, ⟨"billing", [], [], [], []⟩]⟩
    root.find? "billing" = some deep ∧ deep.find? "billing" = none :=
  ⟨rfl, rfl⟩

end Process

end Workflow
