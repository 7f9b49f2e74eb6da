import Mathlib.Data.List.Basic
import Workflow.Json.Reader
import Workflow.Proofs.Json.Tokens

/-!
# Reading what was written

Readers of lists and records on the tokens of lists and records. A record is read back from its members whatever
their order, if each of them brings its own field back.
-/

namespace Workflow

/-! ## Tables -/

namespace Table

theorem insert_perm {name : String} (value : Json) {table : Table} (h : name ∉ table.map Prod.fst) :
    (insert name value table).Perm ((name, value) :: table) := by
  induction table with
  | nil => exact .refl _
  | cons m rest ih =>
      rw [List.map_cons, List.mem_cons, not_or] at h
      unfold insert
      split
      · exact .refl _
      · rw [if_neg h.1]
        exact ((ih h.2).cons m).trans (.swap ..)

/-- Members of different names are all kept. -/
theorem ofList_perm {ms : List (String × Json)} (h : (ms.map Prod.fst).Nodup) : (ofList ms).Perm ms := by
  -- The fold goes on from a table that holds other members.
  have hall (table : Table) (hnames : ((ms ++ table).map Prod.fst).Nodup) :
      (ms.foldl (fun table m => insert m.1 m.2 table) table).Perm (ms ++ table) := by
    clear h
    induction ms generalizing table with
    | nil => exact .refl _
    | cons m ms ih =>
        have hfresh : m.1 ∉ table.map Prod.fst := by
          simp only [List.cons_append, List.map_cons, List.map_append, List.nodup_cons, List.mem_append, not_or]
            at hnames
          exact hnames.1.2
        have hinsert := insert_perm m.2 hfresh
        have hmoved : (ms ++ insert m.1 m.2 table).Perm (m :: (ms ++ table)) :=
          (hinsert.append_left ms).trans List.perm_middle
        exact (ih _ ((hmoved.map Prod.fst).nodup_iff.2 hnames)).trans hmoved
  have hms := hall [] (by rwa [List.append_nil])
  rwa [List.append_nil] at hms

end Table

namespace Json

/-! ## What values are made of -/

theorem haveWordy_iff {ms : List (String × Json)} : haveWordy ms = true ↔ ∀ m ∈ ms, m.2.isWordy = true := by
  induction ms with
  | nil => simp [haveWordy]
  | cons m ms ih => rw [haveWordy, Bool.and_eq_true, ih, List.forall_mem_cons]

theorem areWordy_iff {js : List Json} : areWordy js = true ↔ ∀ j ∈ js, j.isWordy = true := by
  induction js with
  | nil => simp [areWordy]
  | cons j js ih => rw [areWordy, Bool.and_eq_true, ih, List.forall_mem_cons]

mutual

/-- How many lists and objects stand inside one another. -/
def nesting : Json → Nat
  | .arr items => itemsNesting items + 1
  | .obj members => membersNesting members + 1
  | _ => 0

def itemsNesting : List Json → Nat
  | [] => 0
  | j :: js => max (nesting j) (itemsNesting js)

def membersNesting : List (String × Json) → Nat
  | [] => 0
  | (_, j) :: ms => max (nesting j) (membersNesting ms)

end

theorem itemsNesting_le {js : List Json} {n : Nat} : itemsNesting js ≤ n ↔ ∀ j ∈ js, j.nesting ≤ n := by
  induction js with
  | nil => simp [itemsNesting]
  | cons j js ih => rw [itemsNesting, Nat.max_le, ih, List.forall_mem_cons]

theorem membersNesting_le {ms : List (String × Json)} {n : Nat} :
    membersNesting ms ≤ n ↔ ∀ m ∈ ms, m.2.nesting ≤ n := by
  induction ms with
  | nil => simp [membersNesting]
  | cons m ms ih => rw [membersNesting, Nat.max_le, ih, List.forall_mem_cons]

/-! ## Lists -/

/-- A value starts with a token of its own, which ends no list. -/
theorem tokens_head {j : Json} (h : j.isWordy = true) :
    0 < (tokens j).length ∧ ∀ rest rest', tokens j ++ rest ≠ .endArray :: rest' := by
  cases j with
  | num n => cases h
  | _ => simp [tokens]

theorem itemsTokens_head {j : Json} (h : j.isWordy = true) (js : List Json) (rest rest' : List Token) :
    itemsTokens (j :: js) ++ rest ≠ .endArray :: rest' := by
  cases js with
  | nil => exact (tokens_head h).2 rest rest'
  | cons j' js =>
      rw [itemsTokens, List.append_assoc]
      · exact (tokens_head h).2 _ rest'
      · exact List.cons_ne_nil _ _

theorem length_le_itemsTokens {js : List Json} (h : ∀ j ∈ js, j.isWordy = true) :
    js.length ≤ (itemsTokens js).length := by
  induction js with
  | nil => exact Nat.le_refl _
  | cons j js ih =>
      obtain ⟨hj, hjs⟩ := List.forall_mem_cons.1 h
      have hhead := (tokens_head hj).1
      have hlater := ih hjs
      cases js with
      | nil => exact hhead
      | cons j' js =>
          rw [itemsTokens]
          · simp only [List.length_append, List.length_cons] at hlater ⊢
            omega
          · exact List.cons_ne_nil _ _

section

variable {α : Type} {item : Reader α}

theorem items_comma {n : Nat} {ts : List Token} (h : ∀ rest, ts ≠ .endArray :: rest) :
    items item (n + 1) false (.comma :: ts) = items item (n + 1) true ts := by
  cases ts with
  | nil => rfl
  | cons t ts => cases t <;> first | rfl | exact absurd rfl (h _)

theorem items_first {n : Nat} {ts rest : List Token} {a : α} (h : ∀ rest, ts ≠ .endArray :: rest)
    (hitem : item ts = .ok (a, rest)) :
    items item (n + 1) true ts = (items item n false rest).map fun r => (a :: r.1, r.2) := by
  have hfirst : items item (n + 1) true ts = item ts >>= fun r =>
      items item n false r.2 >>= fun r' => .ok (r.1 :: r'.1, r'.2) := by
    cases ts with
    | nil => rfl
    | cons t ts => cases t <;> first | rfl | exact absurd rfl (h _)
  rw [hfirst, hitem]
  cases hrest : items item n false rest <;> simp [bind, Except.bind, hrest, Except.map]

/-- What is written as a list of items is read back, given that each item is. -/
theorem items_tokens {write : α → Json} {as : List α} (hwordy : ∀ a ∈ as, (write a).isWordy = true)
    (hitem : ∀ a ∈ as, ∀ rest, item (tokens (write a) ++ rest) = .ok (a, rest)) {n : Nat} (hn : as.length < n)
    (rest : List Token) :
    items item n true (itemsTokens (as.map write) ++ .endArray :: rest) = .ok (as, rest) := by
  induction as generalizing n with
  | nil =>
      obtain ⟨n, rfl⟩ := Nat.exists_eq_succ_of_ne_zero (Nat.ne_of_gt hn)
      rfl
  | cons a as ih =>
      obtain ⟨hwritten, hwordy⟩ := List.forall_mem_cons.1 hwordy
      obtain ⟨hread, hitem⟩ := List.forall_mem_cons.1 hitem
      obtain ⟨n, rfl⟩ : ∃ k, n = k + 2 := ⟨n - 2, by rw [List.length_cons] at hn; omega⟩
      have hlater := ih hwordy hitem (n := n + 1) (by rw [List.length_cons] at hn; omega)
      cases as with
      | nil =>
          rw [List.map_singleton, itemsTokens, items_first ((tokens_head hwritten).2 _) (hread _)]
          rfl
      | cons b as =>
          -- The comma is read in the round of the item after it.
          have hhead := itemsTokens_head (List.forall_mem_cons.1 hwordy).1 (as.map write) (.endArray :: rest)
          rw [List.map_cons, List.map_cons, itemsTokens, ← List.map_cons, List.append_assoc, List.cons_append,
            items_first ((tokens_head hwritten).2 _) (hread _), List.map_cons, items_comma hhead, ← List.map_cons,
            hlater]
          · rfl
          · exact List.cons_ne_nil _ _

theorem list_tokens {expected : String} {depth : Nat} {item : Nat → Reader α} {write : α → Json} {as : List α}
    (hwordy : ∀ a ∈ as, (write a).isWordy = true)
    (hitem : ∀ a ∈ as, ∀ rest, item depth (tokens (write a) ++ rest) = .ok (a, rest)) (rest : List Token) :
    list expected (depth + 1) item (tokens (.arr (as.map write)) ++ rest) = .ok (as, rest) := by
  rw [tokens, List.cons_append, List.append_assoc]
  refine items_tokens hwordy hitem ?_ rest
  have hlength := length_le_itemsTokens (List.forall_mem_map.2 hwordy)
  rw [List.length_map] at hlength
  rw [List.length_append]
  omega

end

/-! ## Objects -/

section

variable {σ : Type}

theorem length_le_membersTokens (ms : List (String × Json)) : ms.length ≤ (membersTokens ms).length := by
  induction ms with
  | nil => exact Nat.le_refl _
  | cons m ms ih =>
      cases ms with
      | nil => simp [membersTokens]
      | cons m' ms =>
          rw [membersTokens]
          · simp only [List.length_cons, List.length_append] at ih ⊢
            omega
          · exact List.cons_ne_nil _ _

variable (member : σ → String → Reader σ)

theorem members_first {n : Nat} {s s' : σ} {name : String} {ts rest : List Token}
    (h : member s name ts = .ok (s', rest)) :
    members member (n + 1) true s (.string (some name) :: ts) = members member n false s' rest := by
  rw [members, h]
  rfl

theorem members_comma {n : Nat} {s : σ} (m : String × Json) (ms : List (String × Json)) (rest : List Token) :
    members member (n + 1) false s (.comma :: (membersTokens (m :: ms) ++ rest)) =
      members member (n + 1) true s (membersTokens (m :: ms) ++ rest) := by
  cases ms <;> rfl

/-- The members of an object are gathered one after the other, if each is from whatever was gathered before. -/
theorem members_tokens (state : List String → σ) {ms : List (String × Json)}
    (hmember : ∀ m ∈ ms, ∀ seen rest, m.1 ∉ seen →
      member (state seen) m.1 (.colon :: (tokens m.2 ++ rest)) = .ok (state (m.1 :: seen), rest))
    (hnames : (ms.map Prod.fst).Nodup) {seen : List String} (hfresh : ∀ m ∈ ms, m.1 ∉ seen) {n : Nat}
    (hn : ms.length < n) (rest : List Token) :
    members member n true (state seen) (membersTokens ms ++ .endObject :: rest) =
      .ok (state ((ms.map Prod.fst).reverse ++ seen), rest) := by
  induction ms generalizing n seen with
  | nil =>
      obtain ⟨n, rfl⟩ := Nat.exists_eq_succ_of_ne_zero (Nat.ne_of_gt hn)
      rfl
  | cons m ms ih =>
      obtain ⟨name, j⟩ := m
      obtain ⟨hread, hmember⟩ := List.forall_mem_cons.1 hmember
      obtain ⟨hname, hfresh⟩ := List.forall_mem_cons.1 hfresh
      rw [List.map_cons, List.nodup_cons] at hnames
      have hfresh' : ∀ m ∈ ms, m.1 ∉ name :: seen := fun m hm hmem =>
        (List.mem_cons.1 hmem).elim (fun heq => hnames.1 (List.mem_map.2 ⟨m, hm, heq⟩)) (hfresh m hm)
      obtain ⟨n, rfl⟩ : ∃ k, n = k + 2 := ⟨n - 2, by rw [List.length_cons] at hn; omega⟩
      have hlater := ih hmember hnames.2 hfresh' (n := n + 1) (by rw [List.length_cons] at hn; omega)
      rw [List.map_cons, List.reverse_cons, List.append_assoc, List.singleton_append, ← hlater]
      cases ms with
      | nil => exact members_first member (hread seen _ hname)
      | cons m ms =>
          rw [← members_comma member m ms, membersTokens]
          · simp only [List.cons_append, List.append_assoc]
            exact members_first member (hread seen _ hname)
          · exact List.cons_ne_nil _ _

end

/-! ## Records -/

section

variable {σ : Type} {title : String} {depth : Nat} {fields : Nat → List (RecordField σ)} {blank d : σ}

/-- The member brings back its field of a record, of which the fields in `seen` are known. -/
def Restores (fields : List (RecordField σ)) (part : List String → σ) (m : String × Json) : Prop :=
  ∃ f, fields.find? (fun f => f.name == m.1) = some f ∧
    ∀ seen rest, f.read (part seen) (tokens m.2 ++ rest) = .ok (part (m.1 :: seen), rest)

theorem recordMember_restores {part : List String → σ} {m : String × Json} (h : Restores (fields depth) part m)
    (seen : List String) (rest : List Token) (hm : m.1 ∉ seen) :
    recordMember (fields depth) ⟨part seen, seen⟩ m.1 (.colon :: (tokens m.2 ++ rest)) =
      .ok (⟨part (m.1 :: seen), m.1 :: seen⟩, rest) := by
  obtain ⟨f, hf, hread⟩ := h
  have hseen : seen.contains m.1 = false := by simpa using hm
  simp only [recordMember, hf, hseen]
  simp [colon, bind, Except.bind, hread, pure, Except.pure]

/-- A record is read back from its members in any order, if they bring back their fields, no required field is
missing, and with the fields of all members the record is whole. -/
theorem record_tokens {ms : List (String × Json)} {part : List String → σ} (hnames : (ms.map Prod.fst).Nodup)
    (hmembers : ∀ m ∈ ms, Restores (fields depth) part m)
    (hrequired : ∀ f ∈ fields depth, f.required = true → f.name ∈ ms.map Prod.fst) (hblank : part [] = blank)
    (hwhole : ∀ seen, (∀ m ∈ ms, m.1 ∈ seen) → part seen = d) (rest : List Token) :
    record title (depth + 1) fields blank (tokens (.object ms) ++ rest) = .ok (d, rest) := by
  have hperm := Table.ofList_perm hnames
  have hnames' : ((Table.ofList ms).map Prod.fst).Nodup := (hperm.map Prod.fst).nodup_iff.2 hnames
  have hread := members_tokens (recordMember (fields depth)) (fun seen => ⟨part seen, seen⟩)
    (fun m hm => recordMember_restores (hmembers m (hperm.mem_iff.1 hm))) hnames' (fun _ _ => List.not_mem_nil)
    (n := (membersTokens (Table.ofList ms) ++ .endObject :: rest).length + 1) ?_ rest
  · have hseen {name : String} (h : name ∈ ms.map Prod.fst) :
        name ∈ ((Table.ofList ms).map Prod.fst).reverse ++ [] := by
      rw [List.append_nil, List.mem_reverse]
      exact (hperm.map Prod.fst).mem_iff.2 h
    have hfound : (fields depth).find? (fun f => f.required &&
        !(((Table.ofList ms).map Prod.fst).reverse ++ []).contains f.name) = none := by
      refine List.find?_eq_none.2 fun f hf => ?_
      cases hreq : f.required with
      | false => simp
      | true =>
          rw [List.contains_iff_mem.2 (hseen (hrequired f hf hreq))]
          exact Bool.false_ne_true
    rw [object, tokens, List.cons_append, List.append_assoc]
    simp only [record, ← hblank]
    rw [List.singleton_append, hread]
    simp only [bind, Except.bind, hfound]
    rw [hwhole _ fun m hm => hseen (List.mem_map_of_mem hm)]
    rfl
  · have hlength := length_le_membersTokens (Table.ofList ms)
    rw [List.length_append]
    omega

end

end Json

end Workflow
