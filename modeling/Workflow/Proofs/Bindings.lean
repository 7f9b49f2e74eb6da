import Mathlib.Data.List.TFAE
import Mathlib.Tactic.TFAE
import Workflow.BoundProcess
import Workflow.Proofs.Results

/-!
# What is bound

Processes and fields are bound by any number of calls, one after the other. A name of a kind is listed, has a field and
can be opened just where some call bound it, and then it stands for what the last such call gave it, by whichever rule
that call chose the name.
-/

namespace Workflow

inductive BindCall
  | one (kind field : String) (process : Process)
  | each (kind : String) (fields : List (String × Process))

namespace BindCall

variable {kind name : String}

def perform (b : Bindings) : BindCall → Bindings
  | one kind field process => b.bind kind field process
  | each kind fields => b.bindFields kind fields

/-- A single process is bound under its own name, one for a field under that of the field with `_process` behind it. -/
def Binds (kind name : String) : BindCall → Prop
  | one kind' _ process => kind' = kind ∧ process.name = name
  | each kind' fields => kind' = kind ∧ ∃ f ∈ fields, f.1 ++ "_process" = name

/-- What a call binds, in the order in which it does. -/
def bound : BindCall → List ((String × String) × Binding)
  | one kind field process => [((kind, process.name), ⟨field, process⟩)]
  | each kind fields => fields.map fun f => ((kind, f.1 ++ "_process"), ⟨f.1, f.2⟩)

theorem binds_iff {call : BindCall} : call.Binds kind name ↔ ∃ entry ∈ call.bound, entry.1 = (kind, name) := by
  cases call with
  | one kind' field process => simp [Binds, bound]
  | each kind' fields =>
      simp only [Binds, bound, List.mem_map]
      constructor
      · rintro ⟨rfl, f, hf, rfl⟩
        exact ⟨_, ⟨f, hf, rfl⟩, rfl⟩
      · rintro ⟨_, ⟨f, hf, rfl⟩, hkey⟩
        exact ⟨congrArg Prod.fst hkey, f, hf, congrArg Prod.snd hkey⟩

/-- The latest entry stands first. -/
theorem entries_perform (b : Bindings) (call : BindCall) :
    (call.perform b).entries = call.bound.reverse ++ b.entries := by
  cases call with
  | one kind field process => rfl
  | each kind fields =>
      simp only [perform, Bindings.bindFields, bound]
      induction fields generalizing b with
      | nil => rfl
      | cons f fields ih =>
          rw [List.foldl_cons, ih]
          simp [Bindings.bindAs]

end BindCall

namespace Bindings

variable {calls : List BindCall} {kind name : String} {binding : Binding}

def ofCalls (calls : List BindCall) : Bindings :=
  calls.foldl BindCall.perform empty

/-- The last of all that was bound to the name of the kind. -/
def LastBound (calls : List BindCall) (kind name : String) (binding : Binding) : Prop :=
  ∃ before after, calls.flatMap BindCall.bound = before ++ ((kind, name), binding) :: after ∧
    ∀ entry ∈ after, entry.1 ≠ (kind, name)

theorem entries_foldl (b : Bindings) (calls : List BindCall) :
    (calls.foldl BindCall.perform b).entries = (calls.flatMap BindCall.bound).reverse ++ b.entries := by
  induction calls generalizing b with
  | nil => rfl
  | cons call calls ih =>
      rw [List.foldl_cons, ih, BindCall.entries_perform, List.flatMap_cons, List.reverse_append, List.append_assoc]

theorem entries_ofCalls (calls : List BindCall) :
    (ofCalls calls).entries = (calls.flatMap BindCall.bound).reverse :=
  (entries_foldl empty calls).trans (List.append_nil _)

theorem find?_eq_some : (ofCalls calls).find? kind name = some binding ↔ LastBound calls kind name binding := by
  rw [find?, List.lookup_eq_some_iff, entries_ofCalls]
  constructor
  · rintro ⟨after, before, hsplit, hafter⟩
    refine ⟨before.reverse, after.reverse, by simpa using congrArg List.reverse hsplit, fun entry hentry => ?_⟩
    exact (bne_iff_ne.1 (hafter entry (List.mem_reverse.1 hentry))).symm
  · rintro ⟨before, after, hsplit, hafter⟩
    refine ⟨after.reverse, before.reverse, by simp [hsplit], fun entry hentry => ?_⟩
    exact bne_iff_ne.2 (hafter entry (List.mem_reverse.1 hentry)).symm

theorem mem_entries_iff :
    (∃ entry ∈ (ofCalls calls).entries, entry.1 = (kind, name)) ↔ ∃ call ∈ calls, call.Binds kind name := by
  simp only [entries_ofCalls, List.mem_reverse, List.mem_flatMap, BindCall.binds_iff]
  constructor
  · rintro ⟨entry, ⟨call, hcall, hentry⟩, hkey⟩
    exact ⟨call, hcall, entry, hentry, hkey⟩
  · rintro ⟨call, hcall, entry, hentry, hkey⟩
    exact ⟨entry, ⟨call, hcall, hentry⟩, hkey⟩

theorem find?_eq_none : (ofCalls calls).find? kind name = none ↔ ¬ ∃ call ∈ calls, call.Binds kind name := by
  rw [← mem_entries_iff, find?, List.lookup_eq_none_iff]
  simp only [bne_iff_ne, not_exists, not_and]
  exact forall_congr' fun entry => imp_congr_right fun _ => ne_comm

variable {b : Bindings}

theorem mem_processesFor : name ∈ b.processesFor kind ↔ ∃ entry ∈ b.entries, entry.1 = (kind, name) := by
  simp only [processesFor, Names.mem_ofList, List.mem_map, List.mem_filter, beq_iff_eq]
  constructor
  · rintro ⟨entry, ⟨hentry, rfl⟩, rfl⟩
    exact ⟨entry, hentry, rfl⟩
  · rintro ⟨entry, hentry, hkey⟩
    exact ⟨entry, ⟨hentry, congrArg Prod.fst hkey⟩, congrArg Prod.snd hkey⟩

theorem openOn_eq_ok {id : String} {p : BoundProcess} :
    b.openOn kind id name = .ok p ↔
      ∃ binding, b.find? kind name = some binding ∧ p = .fresh binding.process ⟨kind, id, binding.field⟩ := by
  rw [openOn, bind_eq_ok, get]
  cases h : b.find? kind name <;> simp [pure, Except.pure, eq_comm]

theorem openOn_eq_error {id : String} {e : EngineError} :
    b.openOn kind id name = .error e ↔ b.find? kind name = none ∧ e = .processNotBound kind name := by
  rw [openOn, get]
  cases h : b.find? kind name with
  | none => simp [Bind.bind, Except.bind, eq_comm]
  | some binding => simp [Bind.bind, Except.bind, pure, Except.pure]

/-- Whatever calls have bound processes and fields, a name of a kind was bound by one of them just where the kind lists
it, where it has a field and where it can be opened. The field and the process are then those of the last call that
bound the name; a name that no call bound is told to be not bound. The names of a kind are listed in order, each
once. -/
theorem lookups_agree (calls : List BindCall) (kind name id : String) :
    [∃ call ∈ calls, call.Binds kind name,
      name ∈ (ofCalls calls).processesFor kind,
      ∃ field, (ofCalls calls).fieldOf? kind name = some field,
      ∃ p, (ofCalls calls).openOn kind id name = .ok p].TFAE ∧
    (∀ field, (ofCalls calls).fieldOf? kind name = some field ↔
      ∃ binding, LastBound calls kind name binding ∧ binding.field = field) ∧
    (∀ p, (ofCalls calls).openOn kind id name = .ok p ↔
      ∃ binding, LastBound calls kind name binding ∧ p = .fresh binding.process ⟨kind, id, binding.field⟩) ∧
    (∀ e, (ofCalls calls).openOn kind id name = .error e ↔
      (¬ ∃ call ∈ calls, call.Binds kind name) ∧ e = .processNotBound kind name) ∧
    Names.Ascending ((ofCalls calls).processesFor kind) := by
  have hfield : ∀ field, (ofCalls calls).fieldOf? kind name = some field ↔
      ∃ binding, LastBound calls kind name binding ∧ binding.field = field := by
    simp only [fieldOf?, Option.map_eq_some_iff, find?_eq_some, implies_true]
  have hopen : ∀ p, (ofCalls calls).openOn kind id name = .ok p ↔
      ∃ binding, LastBound calls kind name binding ∧ p = .fresh binding.process ⟨kind, id, binding.field⟩ := by
    simp only [openOn_eq_ok, find?_eq_some, implies_true]
  have hbound : (∃ call ∈ calls, call.Binds kind name) ↔ ∃ binding, LastBound calls kind name binding := by
    rw [← not_iff_not, ← find?_eq_none]
    simp only [← find?_eq_some, Option.eq_none_iff_forall_ne_some, not_exists]
  refine ⟨?_, hfield, hopen, fun e => ?_, Names.ascending_ofList _⟩
  · tfae_have 1 ↔ 2 := (mem_processesFor.trans mem_entries_iff).symm
    tfae_have 1 ↔ 3 := by
      rw [hbound]
      simp only [hfield]
      exact ⟨fun ⟨binding, h⟩ => ⟨_, binding, h, rfl⟩, fun ⟨_, binding, h, _⟩ => ⟨binding, h⟩⟩
    tfae_have 1 ↔ 4 := by
      rw [hbound]
      simp only [hopen]
      exact ⟨fun ⟨binding, h⟩ => ⟨_, binding, h, rfl⟩, fun ⟨_, binding, h, _⟩ => ⟨binding, h⟩⟩
    tfae_finish
  · rw [openOn_eq_error, find?_eq_none]

/-- A process whose own name is that of a field's binding replaces it. -/
example :
    let calls := [.each "invoice" [("status", ⟨"billing", [], [], [], []⟩)],
      .one "invoice" "note" ⟨"status_process", [], [], [], []⟩]
    (ofCalls calls).fieldOf? "invoice" "status_process" = some "note" ∧
      (ofCalls calls).processesFor "invoice" = ["status_process"] := by
  decide

end Bindings

end Workflow
