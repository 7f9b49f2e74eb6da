import Workflow.Proofs.Engine.Resolving

/-!
# Open places

A transition stands at a place of the tree. The place is open to a caller, on an entity, if the transition and
all nodes above it are. What is listed for an action are the transitions at the open places: where one
transition is listed, one place is open.
-/

namespace Workflow

/-- The positions that lead to a node, and the position of a transition at this node. -/
structure Place where
  path : List Nat
  index : Nat
deriving DecidableEq, Repr

def Place.below (i : Nat) (a : Place) : Place :=
  ⟨i :: a.path, a.index⟩

theorem Place.below_inj {i j : Nat} {a b : Place} (h : a.below i = b.below j) : i = j ∧ a = b := by
  cases a
  cases b
  cases h
  exact ⟨rfl, rfl⟩

/-- The conditions hold, and the caller has the permissions. -/
structure Guarded (caller : Caller) (e : Entity) (conditions : List Condition)
    (permissions : List Permission) : Prop where
  conditions : ∀ c ∈ conditions, c.check e = true
  permissions : ∀ p ∈ permissions, p.check e caller = true

def Process.at? (p : Process) (a : Place) : Option Transition :=
  (p.descendant? a.path).bind fun node => node.transitions[a.index]?

/-- The transition stands there, it has the state of the entity among its sources, and its guards and those of
all nodes on the path hold. -/
structure Process.OpenAt (p : Process) (caller : Caller) (field : String) (e : Entity) (a : Place)
    (t : Transition) : Prop where
  there : p.at? a = some t
  source : ∃ state ∈ t.sources, e.get? field = some (.str state)
  guards : Guarded caller e t.conditions t.permissions
  nodes : ∀ path node, path <+: a.path → p.descendant? path = some node →
    Guarded caller e node.conditions node.permissions

variable {caller : Caller} {field : String} {e : Entity}

theorem guarded_iff {conditions : List Condition} {permissions : List Permission} :
    Guarded caller e conditions permissions ↔
      (Permission.allGiven (some caller) e permissions && Condition.allHold e conditions) = true := by
  rw [Permission.allGiven, Condition.allHold, Bool.and_eq_true, List.all_eq_true, List.all_eq_true]
  exact ⟨fun h => ⟨h.permissions, h.conditions⟩, fun h => ⟨h.2, h.1⟩⟩

theorem Process.isOpen_iff {p : Process} :
    p.isOpen (some caller) e = true ↔ Guarded caller e p.conditions p.permissions :=
  guarded_iff.symm

theorem Transition.isOpen_iff {t : Transition} :
    t.isOpen (some caller) field e = true ↔
      (∃ state ∈ t.sources, e.get? field = some (.str state)) ∧
        Guarded caller e t.conditions t.permissions := by
  rw [Transition.isOpen, Bool.and_eq_true, Entity.isIn_iff, guarded_iff]

namespace Process

variable {p : Process} {t : Transition}

theorem openAt_node {i : Nat} :
    p.OpenAt caller field e ⟨[], i⟩ t ↔
      p.isOpen (some caller) e = true ∧ p.transitions[i]? = some t ∧
        t.isOpen (some caller) field e = true := by
  rw [isOpen_iff, Transition.isOpen_iff]
  constructor
  · exact fun h => ⟨h.nodes [] p List.prefix_rfl rfl, h.there, h.source, h.guards⟩
  · rintro ⟨hnode, hthere, hsource, hguards⟩
    refine ⟨hthere, hsource, hguards, fun path node hpath hnode' => ?_⟩
    cases List.prefix_nil.1 hpath
    cases hnode'
    exact hnode

theorem openAt_below {i : Nat} {a : Place} :
    p.OpenAt caller field e (a.below i) t ↔
      p.isOpen (some caller) e = true ∧
        ∃ child, p.nested[i]? = some child ∧ child.OpenAt caller field e a t := by
  rw [isOpen_iff]
  constructor
  · intro h
    refine ⟨h.nodes [] p List.nil_prefix rfl, ?_⟩
    obtain ⟨node, hnode, hindex⟩ := Option.bind_eq_some_iff.1 h.there
    obtain ⟨child, hchild, hpath⟩ := Option.bind_eq_some_iff.1 hnode
    refine ⟨child, hchild, ?_, h.source, h.guards, fun path node' hprefix hnode' => ?_⟩
    · rw [at?, hpath]
      exact hindex
    · refine h.nodes (i :: path) node' (List.cons_prefix_cons.2 ⟨rfl, hprefix⟩) ?_
      rw [descendant?, hchild]
      exact hnode'
  · rintro ⟨hnode, child, hchild, h⟩
    refine ⟨?_, h.source, h.guards, fun path node hprefix hnode' => ?_⟩
    · rw [at?, Place.below, descendant?, hchild]
      exact h.there
    · cases path with
      | nil =>
          cases hnode'
          exact hnode
      | cons j path =>
          obtain ⟨rfl, htail⟩ := List.cons_prefix_cons.1 hprefix
          rw [descendant?, hchild] at hnode'
          exact h.nodes path node htail hnode'

end Process

/-! ## Where the listed transitions stand -/

namespace Inquiry

section

variable (q : Inquiry) (field : String) (e : Entity)

mutual

/-- What is listed while the lock is free, and where it stands. -/
def spots : Process → List (Place × Transition)
  | ⟨name, conditions, permissions, transitions, nested⟩ =>
    if Process.isOpen q.user e ⟨name, conditions, permissions, transitions, nested⟩ then
      ((transitions.zipIdx.filter fun s => q.finds field false e s.1).map fun s => (⟨[], s.2⟩, s.1)) ++
        spotsIn nested 0
    else []

def spotsIn : List Process → Nat → List (Place × Transition)
  | [], _ => []
  | p :: ps, i => (spots p).map (Prod.map (Place.below i) id) ++ spotsIn ps (i + 1)

end

mutual

theorem map_snd_spots (p : Process) : (q.spots field e p).map Prod.snd = q.listing field false e p := by
  match p with
  | ⟨name, conditions, permissions, transitions, nested⟩ =>
      unfold spots listing
      split
      · rw [List.map_append, List.map_map, map_snd_spotsIn nested 0]
        congr 1
        refine (List.filter_map (f := Prod.fst) (p := q.finds field false e)).symm.trans ?_
        rw [List.zipIdx_map_fst]
      · rfl

theorem map_snd_spotsIn (ps : List Process) (i : Nat) :
    (q.spotsIn field e ps i).map Prod.snd = q.listingIn field false e ps := by
  match ps with
  | [] => rfl
  | p :: ps =>
      rw [spotsIn, listingIn, List.map_append, List.map_map, map_snd_spotsIn ps (i + 1), ← map_snd_spots p]
      rfl

end

end

variable {q : Inquiry}

theorem finds_iff (huser : q.user = some caller) {t : Transition} :
    q.finds field false e t = true ↔ q.wants t = true ∧ t.isOpen (some caller) field e = true := by
  simp [finds, huser]

theorem mem_own (huser : q.user = some caller) {transitions : List Transition} {a : Place} {t : Transition} :
    (a, t) ∈ (transitions.zipIdx.filter fun s => q.finds field false e s.1).map (fun s => (⟨[], s.2⟩, s.1)) ↔
      a.path = [] ∧ transitions[a.index]? = some t ∧ q.wants t = true ∧
        t.isOpen (some caller) field e = true := by
  simp only [List.mem_map, List.mem_filter, finds_iff huser]
  constructor
  · rintro ⟨⟨t, i⟩, ⟨hmem, hfinds⟩, heq⟩
    cases heq
    exact ⟨rfl, List.mk_mem_zipIdx_iff_getElem?.1 hmem, hfinds⟩
  · rintro ⟨hpath, hmem, hfinds⟩
    refine ⟨(t, a.index), ⟨List.mk_mem_zipIdx_iff_getElem?.2 hmem, hfinds⟩, ?_⟩
    rw [← hpath]

mutual

theorem mem_spots (huser : q.user = some caller) {p : Process} {a : Place} {t : Transition} :
    (a, t) ∈ q.spots field e p ↔ q.wants t = true ∧ p.OpenAt caller field e a t := by
  match p with
  | ⟨name, conditions, permissions, transitions, nested⟩ =>
      obtain ⟨path, index⟩ := a
      have hnested : (⟨path, index⟩, t) ∈ q.spotsIn field e nested 0 ↔ _ := mem_spotsIn huser
      rw [spots, huser]
      cases path with
      | nil =>
          rw [Process.openAt_node]
          split
          · rename_i hopen
            rw [List.mem_append, mem_own huser, hnested]
            constructor
            · rintro (⟨-, hmem, hwants, ht⟩ | ⟨_, _, _, -, heq, -⟩)
              · exact ⟨hwants, hopen, hmem, ht⟩
              · cases heq
            · exact fun ⟨hwants, _, hmem, ht⟩ => .inl ⟨rfl, hmem, hwants, ht⟩
          · rename_i hclosed
            exact ⟨nofun, fun h => absurd h.2.1 hclosed⟩
      | cons k path =>
          rw [show (⟨k :: path, index⟩ : Place) = Place.below k ⟨path, index⟩ from rfl] at hnested ⊢
          rw [Process.openAt_below]
          split
          · rename_i hopen
            rw [List.mem_append, mem_own huser, hnested]
            constructor
            · rintro (⟨hpath, -⟩ | ⟨j, child, b, hchild, heq, hwants, h⟩)
              · cases hpath
              · obtain ⟨rfl, rfl⟩ := Place.below_inj heq
                exact ⟨hwants, hopen, child, by simpa using hchild, h⟩
            · rintro ⟨hwants, -, child, hchild, h⟩
              exact .inr ⟨k, child, _, hchild, by rw [Nat.zero_add], hwants, h⟩
          · rename_i hclosed
            exact ⟨nofun, fun h => absurd h.2.1 hclosed⟩

theorem mem_spotsIn (huser : q.user = some caller) {ps : List Process} {i : Nat} {a : Place}
    {t : Transition} :
    (a, t) ∈ q.spotsIn field e ps i ↔
      ∃ (j : Nat) (child : Process) (b : Place), ps[j]? = some child ∧ a = b.below (i + j) ∧
        q.wants t = true ∧ child.OpenAt caller field e b t := by
  match ps with
  | [] => simp [spotsIn]
  | p :: ps =>
      have hfirst (b : Place) : (b, t) ∈ q.spots field e p ↔ _ := mem_spots huser
      rw [spotsIn, List.mem_append, mem_spotsIn huser, List.mem_map]
      constructor
      · rintro (⟨⟨b, _⟩, hmem, heq⟩ | ⟨j, child, b, hchild, rfl, h⟩)
        · cases heq
          exact ⟨0, p, b, rfl, rfl, (hfirst b).1 hmem⟩
        · exact ⟨j + 1, child, b, hchild, by rw [Nat.add_assoc, Nat.add_comm 1], h⟩
      · rintro ⟨_ | j, child, b, hchild, rfl, h⟩
        · cases hchild
          exact .inl ⟨(b, t), (hfirst b).2 h, rfl⟩
        · exact .inr ⟨j, child, b, hchild, by rw [Nat.add_assoc, Nat.add_comm 1], h⟩

end

/-- Where one transition is listed, it stands at the one open place of a transition that is asked for. -/
theorem openAt_of_listing (huser : q.user = some caller) {p : Process} {t : Transition}
    (h : q.listing field false e p = [t]) :
    ∃ a, p.OpenAt caller field e a t ∧
      ∀ a' t', q.wants t' = true → p.OpenAt caller field e a' t' → a' = a := by
  have hspots := (q.map_snd_spots field e p).trans h
  obtain ⟨⟨a, _⟩, hsingle, rfl⟩ := List.map_eq_singleton_iff.1 hspots
  have hmem (a' : Place) (t' : Transition) : (a', t') ∈ q.spots field e p ↔ _ := mem_spots huser
  simp only [hsingle, List.mem_singleton] at hmem
  refine ⟨a, ((hmem a _).1 rfl).2, fun a' t' hwants hopen => ?_⟩
  exact congrArg Prod.fst ((hmem a' t').2 ⟨hwants, hopen⟩)

end Inquiry

end Workflow
