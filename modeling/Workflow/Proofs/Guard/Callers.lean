import Workflow.Proofs.Building

/-!
# Guards and their callers

The value of a guard depends on nothing but the values of the paths in it. So a guard of a condition, in which no
path starts at the caller, has one value for all callers.
-/

namespace Workflow

namespace Guard

/-- The paths of a guard, from left to right. -/
def paths : Guard → List Path
  | truthy path | equals path _ | differs path _ | compare _ path _ => [path]
  | and l r | or l r => l.paths ++ r.paths
  | not g => g.paths

theorem referencesUser_iff {g : Guard} : g.referencesUser ↔ ∃ path ∈ g.paths, path.root = .user := by
  induction g with
  | truthy path | equals path c | differs path c | compare op path x => simp [referencesUser, paths]
  | and l r ihl ihr | or l r ihl ihr => simp [referencesUser, paths, ihl, ihr, or_and_right, exists_or]
  | not g ih => exact ih

theorem root_of_not_referencesUser {g : Guard} (h : g.referencesUser = false) :
    ∀ path ∈ g.paths, path.root = .ctx := by
  intro path hpath
  cases hroot : path.root with
  | ctx => rfl
  | user => simp [referencesUser_iff.2 ⟨path, hpath, hroot⟩] at h

/-- Two scopes give a guard one value if they agree on its paths. -/
theorem eval_congr {s s' : Scope} {g : Guard} (h : ∀ path ∈ g.paths, s.resolve path = s'.resolve path) :
    g.eval s = g.eval s' := by
  induction g with
  | truthy path | equals path c | differs path c | compare op path x =>
      have hpath : s.resolve path = s'.resolve path := h path (by simp [paths])
      simp only [eval, hpath]
  | and l r ihl ihr | or l r ihl ihr =>
      have hl := ihl fun path hpath => h path (List.mem_append_left _ hpath)
      have hr := ihr fun path hpath => h path (List.mem_append_right _ hpath)
      simp only [eval, hl, hr]
  | not g ih =>
      have hg := ih h
      simp only [eval, hg]

/-- No caller is seen through a path of the entity. -/
theorem Scope.resolve_ctx {path : Path} (h : path.root = .ctx) (e : Entity) (caller caller' : Option Caller) :
    (Scope.of e caller).resolve path = (Scope.of e caller').resolve path := by
  simp only [Scope.resolve, h, Scope.of]

theorem eval_of_not_referencesUser {g : Guard} (h : g.referencesUser = false) (e : Entity)
    (caller caller' : Option Caller) : g.eval (.of e caller) = g.eval (.of e caller') :=
  eval_congr fun path hpath => Scope.resolve_ctx (root_of_not_referencesUser h path hpath) e caller caller'

end Guard

theorem Permission.ofText_eq_ok {text : String} {p : Permission} :
    Permission.ofText text = .ok p ↔ ∃ g, Guard.parse text = .ok g ∧ p = .guarded text g := by
  rw [Permission.ofText, bind_eq_ok]
  refine exists_congr fun g => and_congr_right fun _ => ?_
  simp [pure, Except.pure, eq_comm]

/-- A text that is a condition is a permission as well, and neither sees the caller: the guard has one value for
all callers and for none. A text that is a permission alone is rejected as a condition because of a path that
starts at the caller. -/
theorem Condition.ofText_blind (text : String) :
    (∀ c, Condition.ofText text = .ok c → ∃ g p, Guard.parse text = .ok g ∧ c = .guarded text g ∧
      Permission.ofText text = .ok p ∧ ∀ (e : Entity) (caller : Option Caller) (user : Caller),
        g.eval (.of e caller) = c.check e ∧ p.check e user = c.check e) ∧
    ∀ err p, Condition.ofText text = .error err → Permission.ofText text = .ok p →
      err = .callerInCondition text ∧ ∃ g, Guard.parse text = .ok g ∧ p = .guarded text g ∧
        ∃ path ∈ g.paths, path.root = .user := by
  refine ⟨fun c hc => ?_, fun err p herr hp => ?_⟩
  · obtain ⟨g, hparse, hblind, rfl⟩ := Registry.ofText_eq_ok.1 hc
    refine ⟨g, .guarded text g, hparse, rfl, Permission.ofText_eq_ok.2 ⟨g, hparse, rfl⟩, fun e caller user => ?_⟩
    exact ⟨Guard.eval_of_not_referencesUser hblind e caller none,
      Guard.eval_of_not_referencesUser hblind e (some user) none⟩
  · obtain ⟨g, hparse, rfl⟩ := Permission.ofText_eq_ok.1 hp
    simp only [Condition.ofText, hparse, bind, Except.bind] at herr
    cases huser : g.referencesUser with
    | false => simp [huser, pure, Except.pure] at herr
    | true =>
        rw [huser] at herr
        cases herr
        exact ⟨rfl, g, hparse, rfl, Guard.referencesUser_iff.1 huser⟩

/-- A text that asks about the entity alone, and one that asks whether there is no administrator. -/
theorem Condition.paid_blind :
    (∃ c p, Condition.ofText "!ctx.paid" = .ok c ∧ Permission.ofText "!ctx.paid" = .ok p ∧
      ∀ (e : Entity) (user : Caller), p.check e user = c.check e) ∧
    ∃ err p, Condition.ofText "!user.admin" = .error err ∧ Permission.ofText "!user.admin" = .ok p ∧
      err = .callerInCondition "!user.admin" ∧ ∃ g, p = .guarded "!user.admin" g ∧
        ∃ path ∈ g.paths, path.root = .user := by
  have hpaid : Guard.parse "!ctx.paid" = .ok (.not (.truthy ⟨.ctx, ["paid"]⟩)) := by decide +kernel
  have hadmin : Guard.parse "!user.admin" = .ok (.not (.truthy ⟨.user, ["admin"]⟩)) := by decide +kernel
  have hcondition := Registry.ofText_eq_ok.2 ⟨_, hpaid, rfl, rfl⟩
  have hrejected : Condition.ofText "!user.admin" = .error (.callerInCondition "!user.admin") := by
    simp only [Condition.ofText, hadmin]
    rfl
  have hpermission := Permission.ofText_eq_ok.2 ⟨_, hadmin, rfl⟩
  obtain ⟨g, p, -, -, hp, hsame⟩ := (ofText_blind "!ctx.paid").1 _ hcondition
  obtain ⟨herr, g', -, hp', hpath⟩ := (ofText_blind "!user.admin").2 _ _ hrejected hpermission
  exact ⟨⟨_, p, hcondition, hp, fun e user => (hsame e none user).2⟩,
    _, _, hrejected, hpermission, herr, g', hp', hpath⟩

end Workflow
