import Workflow.Yaml.Record

/-!
# What a record gives to one of its fields

A record is read member by member into a state. A part of the state that only the field of one key is stored into is,
when the whole record has been read, what the member with that key gives for it, and what it was before if there is
none.
-/

namespace Workflow.Yaml

/-- The value of the first member of a mapping that has the key. -/
def Node.member? (key : String) : Node → Option Node
  | .mapping members => (members.find? fun m => m.1.text? == some key).map Prod.snd
  | _ => none

section

variable {α β σ : Type} {part : σ → α} {given : Node → Option α}

/-- Storing a node leaves this part of the state as the node gives it, or as it was if the node gives nothing for it. -/
def Gives (part : σ → α) (store : Node → σ → Option σ) (given : Node → Option α) : Prop :=
  ∀ ⦃node s s'⦄, store node s = some s' → part s' = (given node).getD (part s)

def Keeps (part : σ → α) (store : Node → σ → Option σ) : Prop :=
  Gives part store fun _ => none

variable {fields : List (RecordField σ)} {key : String}

/-- What a member does: it is stored by the first field of its key, which no member had before it, or passed over. -/
theorem storeMember_cases {s s' : σ × List String} {member : Node × Node}
    (h : storeMember fields s member = some s') :
    ∃ name, member.1.text? = some name ∧
      ((∃ f ∈ fields, f.name = name ∧ name ∉ s.2 ∧ f.store member.2 s.1 = some s'.1 ∧ s'.2 = name :: s.2) ∨
        (∀ f ∈ fields, f.name ≠ name) ∧ s' = s) := by
  obtain ⟨name, hname, h⟩ := Option.bind_eq_some_iff.1 h
  refine ⟨name, hname, ?_⟩
  split at h
  case h_1 f hfind =>
    obtain rfl : f.name = name := by simpa using List.find?_some hfind
    split at h
    · cases h
    · next hnew =>
      obtain ⟨t, hstore, h⟩ := Option.bind_eq_some_iff.1 h
      cases h
      exact .inl ⟨f, List.mem_of_find?_eq_some hfind, rfl, by simpa using hnew, hstore, rfl⟩
  case h_2 hfind =>
    cases h
    exact .inr ⟨by simpa using hfind, rfl⟩

/-- What holds at first and is kept by every member holds when all of them have been stored. -/
theorem foldlM_storeMember {P : σ × List String → Prop}
    (hstep : ∀ {s member s'}, P s → storeMember fields s member = some s' → P s')
    {members : List (Node × Node)} {s s' : σ × List String} (h : members.foldlM (storeMember fields) s = some s')
    (hs : P s) : P s' := by
  induction members generalizing s with
  | nil =>
      cases h
      exact hs
  | cons member members ih =>
      obtain ⟨t, ht, h⟩ := Option.bind_eq_some_iff.1 h
      exact ih h (hstep hs ht)

theorem storeMember_keeps {s s' : σ × List String} {member : Node × Node}
    (hfields : ∀ f ∈ fields, f.name ∉ s.2 → Keeps part f.store) (h : storeMember fields s member = some s') :
    part s'.1 = part s.1 ∧ s.2 ⊆ s'.2 := by
  obtain ⟨name, -, ⟨f, hf, rfl, hnew, hstore, hseen⟩ | ⟨-, rfl⟩⟩ := storeMember_cases h
  · exact ⟨hfields f hf hnew hstore, by simp [hseen]⟩
  · exact ⟨rfl, List.Subset.refl _⟩

/-- Members whose fields, as far as they are still new, keep the part. -/
theorem foldlM_keeps {members : List (Node × Node)} {s s' : σ × List String}
    (hfields : ∀ f ∈ fields, f.name ∉ s.2 → Keeps part f.store)
    (h : members.foldlM (storeMember fields) s = some s') : part s'.1 = part s.1 := by
  have hkept : part s'.1 = part s.1 ∧ s.2 ⊆ s'.2 := by
    refine foldlM_storeMember (P := fun t => part t.1 = part s.1 ∧ s.2 ⊆ t.2) ?_ h ⟨rfl, List.Subset.refl _⟩
    rintro t member t' ⟨hpart, hseen⟩ hstep
    have hnew : ∀ f ∈ fields, f.name ∉ t.2 → Keeps part f.store :=
      fun f hf hnew => hfields f hf fun hmem => hnew (hseen hmem)
    obtain ⟨hpart', hseen'⟩ := storeMember_keeps hnew hstep
    exact ⟨hpart'.trans hpart, List.Subset.trans hseen hseen'⟩
  exact hkept.1

theorem member?_cons_self {member : Node × Node} (members : List (Node × Node)) (h : member.1.text? = some key) :
    (Node.mapping (member :: members)).member? key = some member.2 := by
  simp [Node.member?, h]

theorem member?_cons_ne {member : Node × Node} {name : String} (members : List (Node × Node))
    (h : member.1.text? = some name) (hne : name ≠ key) :
    (Node.mapping (member :: members)).member? key = (Node.mapping members).member? key := by
  simp [Node.member?, h, hne]

/-- The part is stored into by the field of the key alone. -/
structure Keyed (part : σ → α) (given : Node → Option α) (key : String) (fields : List (RecordField σ)) : Prop where
  gives : ∀ f ∈ fields, f.name = key → Gives part f.store given
  keeps : ∀ f ∈ fields, f.name ≠ key → Keeps part f.store
  known : ∃ f ∈ fields, f.name = key

theorem Keyed.head {f : RecordField σ} (hname : f.name = key) (hgives : Gives part f.store given)
    (hrest : ∀ g ∈ fields, g.name ≠ key ∧ Keeps part g.store) : Keyed part given key (f :: fields) where
  gives := List.forall_mem_cons.2 ⟨fun _ => hgives, fun g hg heq => absurd heq (hrest g hg).1⟩
  keeps := List.forall_mem_cons.2 ⟨fun hne => absurd hname hne, fun g hg _ => (hrest g hg).2⟩
  known := ⟨f, List.mem_cons_self, hname⟩

theorem Keyed.cons {f : RecordField σ} (hname : f.name ≠ key) (hkeeps : Keeps part f.store)
    (h : Keyed part given key fields) : Keyed part given key (f :: fields) where
  gives := List.forall_mem_cons.2 ⟨fun heq => absurd heq hname, h.gives⟩
  keeps := List.forall_mem_cons.2 ⟨fun _ => hkeeps, h.keeps⟩
  known := h.known.imp fun _ ⟨hg, heq⟩ => ⟨List.mem_cons_of_mem _ hg, heq⟩

theorem foldlM_gives (hfields : Keyed part given key fields) {members : List (Node × Node)}
    {s s' : σ × List String} (hnew : key ∉ s.2) (h : members.foldlM (storeMember fields) s = some s') :
    part s'.1 = (((Node.mapping members).member? key).bind given).getD (part s.1) := by
  induction members generalizing s with
  | nil =>
      cases h
      rfl
  | cons member members ih =>
      obtain ⟨t, hstep, hrest⟩ := Option.bind_eq_some_iff.1 h
      obtain ⟨name, hname, hcase⟩ := storeMember_cases hstep
      by_cases hkey : name = key
      · subst hkey
        rw [member?_cons_self members hname, Option.bind_some]
        rcases hcase with ⟨f, hf, hfname, -, hstore, hseen⟩ | ⟨hunknown, -⟩
        · -- The key is seen from here on, and no other field is stored into this part.
          have hkept : part s'.1 = part t.1 := by
            refine foldlM_keeps (fun g hg hgnew => hfields.keeps g hg fun hgname => hgnew ?_) hrest
            simp [hseen, hgname]
          exact hkept.trans (hfields.gives f hf hfname hstore)
        · obtain ⟨f, hf, hfname⟩ := hfields.known
          exact absurd hfname (hunknown f hf)
      · rw [member?_cons_ne members hname hkey]
        rcases hcase with ⟨f, hf, rfl, -, hstore, hseen⟩ | ⟨-, rfl⟩
        · rw [ih (by simp [hseen, hnew, Ne.symm hkey]) hrest, hfields.keeps f hf hkey hstore, Option.getD_none]
        · exact ih hnew hrest

theorem ofMembers_eq_some {blank s : σ} {members : List (Node × Node)} (h : ofMembers fields blank members = some s) :
    ∃ seen, members.foldlM (storeMember fields) (blank, []) = some (s, seen) := by
  obtain ⟨⟨t, seen⟩, hfold, h⟩ := Option.bind_eq_some_iff.1 h
  dsimp only at h
  split at h
  · cases h
    exact ⟨seen, hfold⟩
  · cases h

end

section

variable {α σ : Type} {part : σ → α} {given : Node → Option α} {fields : Nat → List (RecordField σ)} {key : String}

/-- A record is the mapping of its members, or an absent node. -/
theorem record_eq_some {depth : Nat} {blank s : σ} {node : Node} (h : record depth fields blank node = some s) :
    ∃ d members seen, members.foldlM (storeMember (fields d)) (blank, []) = some (s, seen) ∧
      ∀ key, node.member? key = (Node.mapping members).member? key := by
  unfold record at h
  split at h
  case h_1 =>
    split at h
    · obtain ⟨seen, hfold⟩ := ofMembers_eq_some h
      exact ⟨_, [], seen, hfold, fun key => rfl⟩
    · cases h
  case h_2 members =>
    split at h
    · cases h
    · obtain ⟨seen, hfold⟩ := ofMembers_eq_some h
      exact ⟨_, members, seen, hfold, fun key => rfl⟩
  case h_3 => cases h

theorem record_gives (hfields : ∀ d, Keyed part given key (fields d)) (depth : Nat) :
    Gives part (fun node s => record depth fields s node) fun node => (node.member? key).bind given := by
  intro node s s' h
  obtain ⟨d, members, seen, hfold, hmember⟩ := record_eq_some h
  simp only [hmember]
  exact foldlM_gives (hfields d) (by simp) hfold

theorem record_keeps (hfields : ∀ d, ∀ f ∈ fields d, Keeps part f.store) (depth : Nat) :
    Keeps part fun node s => record depth fields s node := by
  intro node s s' h
  obtain ⟨d, members, seen, hfold, -⟩ := record_eq_some h
  exact foldlM_keeps (fun f hf _ => hfields d f hf) hfold

end

end Workflow.Yaml
