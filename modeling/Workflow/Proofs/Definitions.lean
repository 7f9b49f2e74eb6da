import Mathlib.Tactic.MkIffOfInductiveProp
import Workflow.Definition.FromJson
import Workflow.Proofs.Json.Records

/-!
# Definitions that are read back

A definition that is written as JSON is read back as it was, down to the depth to which containers may be opened
inside one another.
-/

namespace Workflow

/-! ## Members -/

namespace Json

/-- A member for a list, left out when the list is empty. -/
def arrayMember {α : Type} (name : String) (write : α → Json) (as : List α) : List (String × Json) :=
  if as.isEmpty then [] else [(name, .arr (as.map write))]

section

variable {α : Type} {name : String} {write : α → Json} {as : List α} {text : Option String}
  {P : String × Json → Prop} {seen : List String}

theorem forall_arrayMember (h : P (name, .arr (as.map write))) : ∀ m ∈ arrayMember name write as, P m := by
  intro m hm
  unfold arrayMember at hm
  split at hm
  · exact absurd hm List.not_mem_nil
  · rwa [List.mem_singleton.1 hm]

theorem forall_optionMember (h : ∀ s, text = some s → P (name, .str s)) : ∀ m ∈ optionMember name text, P m := by
  cases text with
  | none => exact List.forall_mem_nil _
  | some s => exact List.forall_mem_singleton.2 (h s rfl)

theorem arrayMember_names (name : String) (write : α → Json) (as : List α) :
    ((arrayMember name write as).map Prod.fst).Sublist [name] := by
  unfold arrayMember
  split
  · exact List.nil_sublist _
  · exact .refl _

theorem optionMember_names (name : String) (text : Option String) :
    ((optionMember name text).map Prod.fst).Sublist [name] := by
  cases text with
  | none => exact List.nil_sublist _
  | some s => exact .refl _

/-- A list that is left out is empty. -/
theorem ite_arrayMember (h : ∀ m ∈ arrayMember name write as, m.1 ∈ seen) :
    (if name ∈ seen then as else []) = as := by
  cases as with
  | nil => exact ite_self _
  | cons a as => exact if_pos (h _ (List.mem_singleton_self _))

/-- An option that is left out is none. -/
theorem ite_optionMember (h : ∀ m ∈ optionMember name text, m.1 ∈ seen) :
    (if name ∈ seen then text else none) = text := by
  cases text with
  | none => exact ite_self _
  | some s => exact if_pos (h _ (List.mem_singleton_self _))

theorem arr_wordy (h : ∀ a ∈ as, (write a).isWordy = true) : (arr (as.map write)).isWordy = true :=
  areWordy_iff.2 (List.forall_mem_map.2 h)

theorem arr_nesting {n : Nat} (h : (arr (as.map write)).nesting ≤ n + 1) : ∀ a ∈ as, (write a).nesting ≤ n :=
  List.forall_mem_map.1 (itemsNesting_le.1 (Nat.le_of_succ_le_succ h))

end

theorem isWordy_object {ms : List (String × Json)} (hnames : (ms.map Prod.fst).Nodup) :
    (object ms).isWordy = true ↔ ∀ m ∈ ms, m.2.isWordy = true := by
  have hperm := Table.ofList_perm hnames
  exact haveWordy_iff.trans ⟨fun h m hm => h m (hperm.mem_iff.2 hm), fun h m hm => h m (hperm.mem_iff.1 hm)⟩

theorem nesting_object_le {ms : List (String × Json)} (hnames : (ms.map Prod.fst).Nodup) {n : Nat} :
    (object ms).nesting ≤ n + 1 ↔ ∀ m ∈ ms, m.2.nesting ≤ n := by
  have hperm := Table.ofList_perm hnames
  rw [object, nesting, Nat.add_le_add_iff_right, membersNesting_le]
  exact ⟨fun h m hm => h m (hperm.mem_iff.2 hm), fun h m hm => h m (hperm.mem_iff.1 hm)⟩

/-! ## Values of members -/

theorem Restores.of {σ α : Type} {fields : List (RecordField σ)} {part : List String → σ} {name : String}
    {required : Bool} {read : Reader α} {set : α → σ → σ} {j : Json} {a : α}
    (hfind : fields.find? (fun f => f.name == name) = some (.of name required read set))
    (hread : ∀ rest, read (tokens j ++ rest) = .ok (a, rest)) (hset : ∀ seen, set a (part seen) = part (name :: seen)) :
    Restores fields part (name, j) := by
  refine ⟨_, hfind, fun seen rest => ?_⟩
  change (read (tokens j ++ rest)).map (fun r => (set r.1 (part seen), r.2)) = _
  rw [hread, ← hset]
  rfl

theorem texts_tokens (depth : Nat) (texts : List String) (rest : List Token) :
    Json.texts (depth + 1) (tokens (strings texts) ++ rest) = .ok (texts, rest) :=
  list_tokens (fun _ _ => rfl) (fun _ _ _ => rfl) rest

theorem textOrTexts_tokens (depth : Nat) (texts : List String) (rest : List Token) :
    textOrTexts (depth + 1) (tokens (strings texts) ++ rest) = .ok (texts, rest) := by
  have hlist : list "a string or array of strings" (depth + 1) (fun _ => plainText)
      (tokens (.arr (texts.map .str)) ++ rest) = .ok (texts, rest) :=
    list_tokens (fun _ _ => rfl) (fun _ _ _ => rfl) rest
  exact hlist

end Json

open Json

/-! ## Transitions -/

namespace TransitionDefinition

def written (t : TransitionDefinition) : List (String × Json) :=
  [("action", .str t.action), ("sources", strings t.sources)] ++
  optionMember "target" t.target ++
  optionMember "in_progress" t.inProgress ++
  optionMember "failed" t.failed ++
  arrayMember "conditions" .str t.conditions ++
  arrayMember "permissions" .str t.permissions ++
  arrayMember "side_effects" .str t.sideEffects ++
  arrayMember "callbacks" .str t.callbacks ++
  arrayMember "failure_callbacks" .str t.failureCallbacks ++
  optionMember "next" t.next

theorem toJson_eq (t : TransitionDefinition) : t.toJson = object t.written :=
  rfl

/-- What holds of the member of each field, where there is one. -/
@[mk_iff]
structure Each (t : TransitionDefinition) (P : String × Json → Prop) : Prop where
  action : P ("action", .str t.action)
  sources : P ("sources", .arr (t.sources.map .str))
  target : ∀ m ∈ optionMember "target" t.target, P m
  inProgress : ∀ m ∈ optionMember "in_progress" t.inProgress, P m
  failed : ∀ m ∈ optionMember "failed" t.failed, P m
  conditions : ∀ m ∈ arrayMember "conditions" .str t.conditions, P m
  permissions : ∀ m ∈ arrayMember "permissions" .str t.permissions, P m
  sideEffects : ∀ m ∈ arrayMember "side_effects" .str t.sideEffects, P m
  callbacks : ∀ m ∈ arrayMember "callbacks" .str t.callbacks, P m
  failureCallbacks : ∀ m ∈ arrayMember "failure_callbacks" .str t.failureCallbacks, P m
  next : ∀ m ∈ optionMember "next" t.next, P m

theorem forall_written {t : TransitionDefinition} {P : String × Json → Prop} :
    (∀ m ∈ t.written, P m) ↔ t.Each P := by
  simp only [written, strings, List.forall_mem_append, List.forall_mem_cons, List.not_mem_nil, false_imp_iff,
    implies_true, true_and, and_assoc, each_iff]

/-- As much of the definition as is known from some of its fields. -/
def part (t : TransitionDefinition) (seen : List String) : TransitionDefinition where
  action := if "action" ∈ seen then t.action else ""
  sources := if "sources" ∈ seen then t.sources else []
  target := if "target" ∈ seen then t.target else none
  inProgress := if "in_progress" ∈ seen then t.inProgress else none
  failed := if "failed" ∈ seen then t.failed else none
  conditions := if "conditions" ∈ seen then t.conditions else []
  permissions := if "permissions" ∈ seen then t.permissions else []
  sideEffects := if "side_effects" ∈ seen then t.sideEffects else []
  callbacks := if "callbacks" ∈ seen then t.callbacks else []
  failureCallbacks := if "failure_callbacks" ∈ seen then t.failureCallbacks else []
  next := if "next" ∈ seen then t.next else none

variable (t : TransitionDefinition)

theorem written_names : (t.written.map Prod.fst).Sublist ["action", "sources", "target", "in_progress", "failed",
    "conditions", "permissions", "side_effects", "callbacks", "failure_callbacks", "next"] := by
  simp only [written, List.map_append]
  exact ((((((((((List.Sublist.refl ["action", "sources"]).append (optionMember_names ..)).append
    (optionMember_names ..)).append (optionMember_names ..)).append (arrayMember_names ..)).append
    (arrayMember_names ..)).append (arrayMember_names ..)).append (arrayMember_names ..)).append
    (arrayMember_names ..)).append (optionMember_names ..))

theorem written_nodup : (t.written.map Prod.fst).Nodup :=
  t.written_names.nodup (by decide)

theorem part_whole {seen : List String} (h : ∀ m ∈ t.written, m.1 ∈ seen) : t.part seen = t := by
  have hall := forall_written.1 h
  simp only [part, if_pos hall.action, if_pos hall.sources, ite_optionMember hall.target,
    ite_optionMember hall.inProgress, ite_optionMember hall.failed, ite_arrayMember hall.conditions,
    ite_arrayMember hall.permissions, ite_arrayMember hall.sideEffects, ite_arrayMember hall.callbacks,
    ite_arrayMember hall.failureCallbacks, ite_optionMember hall.next]

theorem written_restore (depth : Nat) : ∀ m ∈ t.written, Restores (fields (depth + 1)) t.part m := by
  refine forall_written.2 ⟨?action, ?sources, ?target, ?inProgress, ?failed, ?conditions, ?permissions, ?sideEffects,
    ?callbacks, ?failureCallbacks, ?next⟩
  case action => exact .of rfl (fun _ => rfl) fun seen => by simp [part]
  case sources => exact .of rfl (textOrTexts_tokens depth t.sources) fun seen => by simp [part]
  case target | inProgress | failed | next =>
    exact forall_optionMember fun s hs => .of (a := some s) rfl (fun _ => rfl) fun seen => by simp [part, hs]
  case conditions | permissions | sideEffects | callbacks | failureCallbacks =>
    exact forall_arrayMember (.of rfl (texts_tokens depth _) fun seen => by simp [part])

theorem toJson_wordy : t.toJson.isWordy = true := by
  refine (isWordy_object t.written_nodup).2 (forall_written.2 ⟨rfl, ?sources, ?target, ?inProgress, ?failed,
    ?conditions, ?permissions, ?sideEffects, ?callbacks, ?failureCallbacks, ?next⟩)
  case sources => exact arr_wordy fun _ _ => rfl
  case target | inProgress | failed | next => exact forall_optionMember fun _ _ => rfl
  case conditions | permissions | sideEffects | callbacks | failureCallbacks =>
    exact forall_arrayMember (arr_wordy fun _ _ => rfl)

/-- A transition has its sources as a list of its own. -/
theorem two_le_nesting : 2 ≤ t.toJson.nesting := by
  by_contra hlow
  have hall := forall_written.1 ((nesting_object_le t.written_nodup (n := 0)).1 (by rw [← toJson_eq]; omega))
  exact absurd hall.sources (by simp [nesting])

theorem read_tokens {depth : Nat} (hdepth : 2 ≤ depth) (rest : List Token) :
    read depth (tokens t.toJson ++ rest) = .ok (t, rest) := by
  obtain ⟨depth, rfl⟩ : ∃ k, depth = k + 2 := ⟨depth - 2, by omega⟩
  refine record_tokens t.written_nodup (t.written_restore depth) ?_ rfl (fun _ => t.part_whole) rest
  simp [fields, RecordField.of, written]

end TransitionDefinition

/-! ## Processes -/

namespace ProcessDefinition

theorem toJsonAll_eq (ds : List ProcessDefinition) : toJsonAll ds = ds.map toJson := by
  induction ds with
  | nil => rfl
  | cons d ds ih => rw [toJsonAll, ih, List.map_cons]

def written (d : ProcessDefinition) : List (String × Json) :=
  [("name", .str d.name)] ++
  arrayMember "conditions" .str d.conditions ++
  arrayMember "permissions" .str d.permissions ++
  [("transitions", .arr (d.transitions.map TransitionDefinition.toJson))] ++
  arrayMember "nested" toJson d.nested

theorem toJson_eq (d : ProcessDefinition) : d.toJson = object d.written := by
  cases d
  rw [toJson, toJsonAll_eq]
  rfl

/-- What holds of the member of each field, where there is one. -/
@[mk_iff]
structure Each (d : ProcessDefinition) (P : String × Json → Prop) : Prop where
  name : P ("name", .str d.name)
  conditions : ∀ m ∈ arrayMember "conditions" .str d.conditions, P m
  permissions : ∀ m ∈ arrayMember "permissions" .str d.permissions, P m
  transitions : P ("transitions", .arr (d.transitions.map TransitionDefinition.toJson))
  nested : ∀ m ∈ arrayMember "nested" toJson d.nested, P m

theorem forall_written {d : ProcessDefinition} {P : String × Json → Prop} :
    (∀ m ∈ d.written, P m) ↔ d.Each P := by
  simp only [written, List.forall_mem_append, List.forall_mem_singleton, and_assoc, each_iff]

/-- As much of the definition as is known from some of its fields. -/
def part (d : ProcessDefinition) (seen : List String) : ProcessDefinition where
  name := if "name" ∈ seen then d.name else ""
  conditions := if "conditions" ∈ seen then d.conditions else []
  permissions := if "permissions" ∈ seen then d.permissions else []
  transitions := if "transitions" ∈ seen then d.transitions else []
  nested := if "nested" ∈ seen then d.nested else []

variable (d : ProcessDefinition)

theorem written_nodup : (d.written.map Prod.fst).Nodup := by
  have hnames : (d.written.map Prod.fst).Sublist ["name", "conditions", "permissions", "transitions", "nested"] := by
    simp only [written, List.map_append]
    exact ((((List.Sublist.refl ["name"]).append (arrayMember_names ..)).append (arrayMember_names ..)).append
      (.refl ["transitions"])).append (arrayMember_names ..)
  exact hnames.nodup (by decide)

theorem part_whole {seen : List String} (h : ∀ m ∈ d.written, m.1 ∈ seen) : d.part seen = d := by
  have hall := forall_written.1 h
  simp only [part, if_pos hall.name, ite_arrayMember hall.conditions, ite_arrayMember hall.permissions,
    if_pos hall.transitions, ite_arrayMember hall.nested]
  cases d
  rfl

theorem written_restore {depth : Nat} {nested : Reader ProcessDefinition}
    (htransitions : ∀ t ∈ d.transitions, t.toJson.nesting ≤ depth) (hwordy : ∀ c ∈ d.nested, c.toJson.isWordy = true)
    (hnested : ∀ c ∈ d.nested, ∀ rest, nested (tokens c.toJson ++ rest) = .ok (c, rest)) :
    ∀ m ∈ d.written, Restores (fields nested (depth + 1)) d.part m := by
  refine forall_written.2 ⟨?name, ?conditions, ?permissions, ?transitions, ?nested⟩
  case name => exact .of rfl (fun _ => rfl) fun seen => by simp [part]
  case conditions | permissions =>
    exact forall_arrayMember (.of rfl (texts_tokens depth _) fun seen => by simp [part])
  case transitions =>
    refine .of rfl (list_tokens (fun t _ => t.toJson_wordy) fun t ht => ?_) fun seen => by simp [part]
    exact t.read_tokens (Nat.le_trans t.two_le_nesting (htransitions t ht))
  case nested => exact forall_arrayMember (.of rfl (list_tokens hwordy hnested) fun seen => by simp [part])

theorem written_wordy (hnested : ∀ c ∈ d.nested, c.toJson.isWordy = true) : d.toJson.isWordy = true := by
  rw [toJson_eq, isWordy_object d.written_nodup]
  refine forall_written.2 ⟨rfl, ?conditions, ?permissions, ?transitions, ?nested⟩
  case conditions | permissions => exact forall_arrayMember (arr_wordy fun _ _ => rfl)
  case transitions => exact arr_wordy fun t _ => t.toJson_wordy
  case nested => exact forall_arrayMember (arr_wordy hnested)

mutual

theorem toJson_wordy (d : ProcessDefinition) : d.toJson.isWordy = true := by
  match d with
  | ⟨name, conditions, permissions, transitions, nested⟩ => exact written_wordy _ (toJson_wordyIn nested)

theorem toJson_wordyIn (ds : List ProcessDefinition) : ∀ d ∈ ds, d.toJson.isWordy = true := by
  match ds with
  | [] => exact List.forall_mem_nil _
  | d :: ds => exact List.forall_mem_cons.2 ⟨toJson_wordy d, toJson_wordyIn ds⟩

end

/-- What the depth of a written definition leaves for its transitions and for the processes in it. -/
theorem nesting_le {depth : Nat} (h : d.toJson.nesting ≤ depth) : ∃ k, depth = k + 2 ∧
    (∀ t ∈ d.transitions, t.toJson.nesting ≤ k) ∧ ∀ c ∈ d.nested, c.toJson.nesting ≤ k := by
  obtain ⟨depth, rfl⟩ : ∃ k, depth = k + 1 := by
    rw [toJson_eq, object, nesting] at h
    exact ⟨depth - 1, by omega⟩
  rw [toJson_eq, nesting_object_le d.written_nodup, forall_written] at h
  obtain ⟨depth, rfl⟩ : ∃ k, depth = k + 1 := by
    have htransitions := h.transitions
    rw [nesting] at htransitions
    exact ⟨depth - 1, by omega⟩
  refine ⟨depth, rfl, arr_nesting h.transitions, fun c hc => ?_⟩
  have hmember : ("nested", Json.arr (d.nested.map toJson)) ∈ arrayMember "nested" toJson d.nested := by
    rw [arrayMember, if_neg (by simp [List.ne_nil_of_mem hc])]
    exact List.mem_singleton_self _
  exact arr_nesting (h.nested _ hmember) c hc

mutual

theorem read_tokens (d : ProcessDefinition) {depth : Nat} (h : d.toJson.nesting ≤ depth) (rest : List Token) :
    read depth (tokens d.toJson ++ rest) = .ok (d, rest) := by
  obtain ⟨depth, rfl, htransitions, hnested⟩ := d.nesting_le h
  match d with
  | ⟨name, conditions, permissions, transitions, nested⟩ =>
      rw [toJson_eq, read]
      refine record_tokens (written_nodup _) (written_restore _ htransitions (toJson_wordyIn nested)
        (read_tokensIn nested hnested)) ?_ rfl (fun _ => part_whole _) rest
      simp [fields, RecordField.of, written]

theorem read_tokensIn (ds : List ProcessDefinition) {depth : Nat} (h : ∀ d ∈ ds, d.toJson.nesting ≤ depth) :
    ∀ d ∈ ds, ∀ rest, read depth (tokens d.toJson ++ rest) = .ok (d, rest) := by
  match ds with
  | [] => exact List.forall_mem_nil _
  | d :: ds =>
      obtain ⟨hd, hds⟩ := List.forall_mem_cons.1 h
      exact List.forall_mem_cons.2 ⟨read_tokens d hd, read_tokensIn ds hds⟩

end

/-- A definition that is written with no more containers inside one another than a reader opens is read back. -/
theorem ofJson_toJson (d : ProcessDefinition) (h : d.toJson.nesting ≤ maxDepth) : ofJson d.toJson.text = .ok d := by
  have hread := d.read_tokens h []
  rw [List.append_nil] at hread
  simp only [ofJson, readText, ofText_text d.toJson_wordy, hread]
  rfl

/-- Orders with a return within a return: one source and two, an empty option, an empty list of transitions, and texts
that are escaped. -/
def orders : ProcessDefinition :=
  ⟨"orders \"2\"", ["paid", "ctx.total"], [],
    [{ TransitionDefinition.blank with
        action := "ship", sources := ["packed"], target := some "shipped", failed := some "" },
      { TransitionDefinition.blank with action := "hold\n", sources := ["new", "packed"], sideEffects := ["b", "a"] }],
    [⟨"returns", [], ["user.is_staff"], [], [⟨"", [], [], [TransitionDefinition.blank], []⟩]⟩,
      ⟨"claims\x01", [], [], [{ TransitionDefinition.blank with action := "\\", next := some "ship" }], []⟩]⟩

theorem orders_read : orders.toJson.nesting = 8 ∧ ofJson orders.toJson.text = .ok orders := by
  have hnesting : orders.toJson.nesting = 8 := by decide +kernel
  exact ⟨hnesting, ofJson_toJson orders (by rw [hnesting]; decide)⟩

end ProcessDefinition

end Workflow
