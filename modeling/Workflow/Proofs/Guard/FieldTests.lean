import Workflow.Proofs.Guard.Callers
import Workflow.Proofs.Guard.Positions

/-!
# Guards that test a field

A guard that is one path and nothing else asks whether its names lead, through nested objects, to something that counts
as yes. With a single name it is the test of a field by that name.
-/

namespace Workflow

/-! ## Yes and no -/

namespace Binary64

theorem lt_of_log2_le {n : Nat} (h : n.log2 ≤ 52) : n < Nat.pow 2 53 := by
  by_cases hn : n = 0
  · rw [hn]
    decide
  · exact (Nat.log2_lt hn).1 (by omega)

theorem nearestBits_eq_zero {n : Nat} : nearestBits n 1 = 0 ↔ n = 0 := by
  constructor
  · intro h
    by_contra hn
    have hscaled (k : Nat) (hk : 53 ≤ k) : Nat.pow 2 53 ≤ n * Nat.pow 2 k :=
      (Nat.pow_le_pow_right (by decide) hk).trans (Nat.le_mul_of_pos_left _ (Nat.pos_of_ne_zero hn))
    rw [nearestBits, Nat.div_one] at h
    have hsum := (Nat.min_eq_zero_iff.1 h).resolve_left (by decide)
    have hshift := (Nat.mul_eq_zero.1 (Nat.eq_zero_of_add_eq_zero_right hsum)).resolve_right (by decide)
    have hlog := Nat.sub_eq_zero_iff_le.1 hshift
    have hlt := lt_of_log2_le hlog
    exact Nat.not_lt.2 (hscaled _ (by decide)) hlt
  · rintro rfl
    decide +kernel

theorem nearestBits_lt (num den : Nat) : nearestBits num den < signBit :=
  Nat.lt_of_le_of_lt (Nat.min_le_left ..) (by decide)

theorem rest_ofParts {negative : Bool} {bits : Nat} (h : bits < signBit) : (ofParts negative bits).rest = bits := by
  have hsign : signBit = 2 ^ 63 := rfl
  rw [rest, ofParts, UInt64.toNat_ofNat', hsign]
  rw [hsign] at h
  cases negative with
  | false => simp only [Bool.false_eq_true, if_false]; omega
  | true => simp only [if_true]; omega

theorem ofInt_isZero {n : Int} : (ofInt n).isZero ↔ n = 0 := by
  rw [isZero, ofInt, ofRatio, rest_ofParts (nearestBits_lt ..), beq_iff_eq, nearestBits_eq_zero, Int.natAbs_eq_zero]

end Binary64

/-- The values that count as no. -/
inductive Json.Falsy : Json → Prop
  | null : Falsy .null
  | false : Falsy (.bool false)
  | zero : Falsy (.num (.int 0))
  | zeroFloat {x : Binary64} (h : x.isZero) : Falsy (.num (.float x))
  | text : Falsy (.str "")
  | array : Falsy (.arr [])
  | object : Falsy (.obj [])

theorem Json.isTruthy_iff {value : Json} : value.isTruthy ↔ ¬ value.Falsy := by
  rw [← not_iff_not, not_not, Bool.not_eq_true]
  constructor
  · intro h
    cases value with
    | null => exact .null
    | bool b =>
        cases h
        exact .false
    | num n =>
        cases n with
        | int n =>
            obtain rfl : n = 0 := Binary64.ofInt_isZero.1 (by simpa [isTruthy, Number.toBinary64] using h)
            exact .zero
        | float x => exact .zeroFloat (by simpa [isTruthy, Number.toBinary64] using h)
    | str s =>
        obtain rfl : s = "" := by simpa [isTruthy] using h
        exact .text
    | arr items =>
        obtain rfl : items = [] := by simpa [isTruthy] using h
        exact .array
    | obj members =>
        obtain rfl : members = [] := by simpa [isTruthy] using h
        exact .object
  · intro h
    cases h with
    | zero => simp [isTruthy, Number.toBinary64, Binary64.ofInt_isZero.2 rfl]
    | zeroFloat h => simp [isTruthy, Number.toBinary64, h]
    | null | false | text | array | object => rfl

namespace Table

/-- The names lead from the table to the value, each but the last to an object that is searched for the next. -/
inductive Reaches : Table → List String → Json → Prop
  | member {table : Table} {name : String} {value : Json} (h : get? table name = some value) :
      Reaches table [name] value
  | within {table members : Table} {name : String} {names : List String} {value : Json}
      (h : get? table name = some (.obj members)) (hin : Reaches members names value) :
      Reaches table (name :: names) value

def Shows (table : Table) (names : List String) : Prop :=
  ∃ value, Reaches table names value ∧ ¬ value.Falsy

theorem shows_single {table : Table} {name : String} :
    Shows table [name] ↔ ∃ value, get? table name = some value ∧ value.isTruthy := by
  simp only [Json.isTruthy_iff]
  constructor
  · rintro ⟨value, _ | _, hvalue⟩
    · exact ⟨value, ‹_›, hvalue⟩
    · contradiction
  · rintro ⟨value, h, hvalue⟩
    exact ⟨value, .member h, hvalue⟩

theorem shows_cons {table : Table} {name next : String} {names : List String} :
    Shows table (name :: next :: names) ↔
      ∃ members, get? table name = some (.obj members) ∧ Shows members (next :: names) := by
  constructor
  · rintro ⟨value, hreaches, hvalue⟩
    cases hreaches with
    | within h hin => exact ⟨_, h, value, hin, hvalue⟩
  · rintro ⟨members, h, value, hin, hvalue⟩
    exact ⟨value, .within h hin, hvalue⟩

theorem holds_iff {table : Table} {name : String} : table.holds name ↔ Shows table [name] := by
  rw [shows_single, holds]
  cases get? table name <;> simp

theorem follow_iff {table : Table} {name : String} {names : List String} :
    (Guard.follow ((get? table name).getD .null) names).isTruthy ↔ Shows table (name :: names) := by
  induction names generalizing table name with
  | nil =>
      rw [shows_single]
      cases get? table name <;> simp [Guard.follow, Json.isTruthy]
  | cons next names ih =>
      rw [shows_cons]
      cases h : get? table name with
      | none => simp [Guard.follow, Json.isTruthy]
      | some value =>
          cases value with
          | obj members => simpa [Guard.follow] using ih
          | null | bool | num | str | arr => simp [Guard.follow, Json.isTruthy]

end Table

namespace Guard

variable {names : List String}

/-- A name that may stand in a path. -/
def IsName (name : String) : Prop :=
  name ≠ "" ∧ ∀ c ∈ name.toList, isNameChar c

def Root.label : Root → String
  | .ctx => "ctx."
  | .user => "user."

/-- The text of a path, with a dot between its names. -/
def Path.label (p : Path) : String :=
  p.root.label ++ ".".intercalate p.parts

theorem Path.ofList_text (p : Path) : String.ofList p.text = p.label := by
  have hroot : p.root.label.toList = p.root.text := by cases p.root <;> rfl
  rw [← String.toList_inj, String.toList_ofList, text, label, String.toList_append, hroot, String.toList_intercalate]
  rfl

theorem parse_label {p : Path} (hp : p.IsField) : parse p.label = .ok (.truthy p) := by
  have hparse := (Derives.conjunction (.unary (.truthy hp))).parse Gap.nil
  rwa [List.append_nil, Path.ofList_text] at hparse

/-- The value of a path is a yes just where its names show one in the table that it starts from. -/
theorem resolve_isTruthy (s : Scope) (root : Root) (hsome : names ≠ []) :
    (s.resolve ⟨root, names⟩).isTruthy ↔
      Table.Shows (match root with | .ctx => s.fields | .user => s.attributes.getD []) names := by
  cases names with
  | nil => exact absurd rfl hsome
  | cons name names => exact Table.follow_iff

theorem eval_ctx (hsome : names ≠ []) (e : Entity) (caller : Option Caller) :
    (truthy ⟨.ctx, names⟩).eval (.of e caller) ↔ Table.Shows e.fields names :=
  resolve_isTruthy (.of e caller) .ctx hsome

theorem eval_user (hsome : names ≠ []) (e : Entity) (user : Caller) :
    (truthy ⟨.user, names⟩).eval (.of e (some user)) ↔ Table.Shows user.attributes names :=
  resolve_isTruthy (.of e (some user)) .user hsome

/-- Nothing is shown of nobody. -/
theorem eval_user_none (names : List String) (e : Entity) : (truthy ⟨.user, names⟩).eval (.of e none) = false := by
  simp only [eval, Scope.resolve, Scope.of, Option.map_none, Option.getD_none]
  cases names with
  | nil => rfl
  | cons name names => cases names <;> rfl

/-- The text of a path behind `ctx.` is a condition and a permission, that of one behind `user.` a permission: each is
met just where the names lead, through nested objects, to a present value that does not count as no, the first from
the fields of the entity whoever the caller is, the second from the attributes of the caller whatever the entity is. A
single name asks what the test of a field, or of an attribute, by that name does. -/
theorem path_tests_agree (names : List String) (hsome : names ≠ []) (hnames : ∀ name ∈ names, IsName name) :
    ∃ (g h : Guard) (c : Condition) (p q : Permission),
      parse ("ctx." ++ ".".intercalate names) = .ok g ∧ parse ("user." ++ ".".intercalate names) = .ok h ∧
      Condition.ofText ("ctx." ++ ".".intercalate names) = .ok c ∧
      Permission.ofText ("ctx." ++ ".".intercalate names) = .ok p ∧
      Permission.ofText ("user." ++ ".".intercalate names) = .ok q ∧
      ∀ (e : Entity) (user : Caller),
        (c.check e ↔ Table.Shows e.fields names) ∧ (q.check e user ↔ Table.Shows user.attributes names) ∧
        p.check e user = c.check e ∧ (∀ caller, g.eval (.of e caller) = c.check e) ∧
        h.eval (.of e (some user)) = q.check e user ∧ h.eval (.of e none) = false ∧
        (∀ e', q.check e' user = q.check e user) ∧
        ∀ name, names = [name] → c.check e = e.holds name ∧ q.check e user = user.holds name := by
  have hfield (root : Root) : Path.IsField ⟨root, names⟩ := ⟨hsome, hnames⟩
  have hctx := parse_label (hfield .ctx)
  have huser := parse_label (hfield .user)
  refine ⟨.truthy ⟨.ctx, names⟩, .truthy ⟨.user, names⟩, _, _, _, hctx, huser,
    Registry.ofText_eq_ok.2 ⟨_, hctx, rfl, rfl⟩, Permission.ofText_eq_ok.2 ⟨_, hctx, rfl⟩,
    Permission.ofText_eq_ok.2 ⟨_, huser, rfl⟩, fun e user => ?_⟩
  have hentity := eval_ctx hsome e
  have hcaller := eval_user hsome e user
  refine ⟨hentity none, hcaller, rfl, fun caller => rfl, rfl, eval_user_none names e, fun e' => rfl, ?_⟩
  rintro name rfl
  exact ⟨Bool.eq_iff_iff.2 ((hentity none).trans Table.holds_iff.symm),
    Bool.eq_iff_iff.2 (hcaller.trans Table.holds_iff.symm)⟩

/-- Names that are words elsewhere in guards or written in other letters; a text is no object to look for more in. -/
theorem nested_tests_agree :
    ["true", "価_1"] ≠ [] ∧ (∀ name ∈ ["true", "価_1"], IsName name) ∧
    ∃ (c : Condition) (q : Permission),
      Condition.ofText "ctx.true.価_1" = .ok c ∧ Permission.ofText "user.true.価_1" = .ok q ∧
      c.check ⟨"case", "1", [("true", .obj [("価_1", .num (.int 2))])]⟩ = true ∧
      q.check ⟨"case", "1", []⟩ ⟨"u", [("true", .str "価_1")]⟩ = false := by
  have hnames : ∀ name ∈ ["true", "価_1"], IsName name := by
    simp only [List.forall_mem_cons, IsName, ← List.all_eq_true]
    decide +kernel
  have hctx : "ctx." ++ ".".intercalate ["true", "価_1"] = "ctx.true.価_1" := by decide +kernel
  have huser : "user." ++ ".".intercalate ["true", "価_1"] = "user.true.価_1" := by decide +kernel
  obtain ⟨_, _, c, _, q, -, -, hc, -, hq, hchecks⟩ := path_tests_agree ["true", "価_1"] (by simp) hnames
  rw [hctx] at hc
  rw [huser] at hq
  have hyes : ¬ (Json.num (.int 2)).Falsy := by
    intro h
    cases h
  refine ⟨by simp, hnames, c, q, hc, hq, ?_, ?_⟩
  · exact (hchecks _ ⟨"u", []⟩).1.2 ⟨_, .within rfl (.member rfl), hyes⟩
  · rw [← Bool.not_eq_true, (hchecks _ _).2.1]
    intro hshown
    obtain ⟨members, hmembers, -⟩ := Table.shows_cons.1 hshown
    cases hmembers

end Guard

end Workflow
