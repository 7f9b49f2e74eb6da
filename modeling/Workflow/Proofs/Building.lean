import Mathlib.Data.List.Sort
import Workflow.Definition.Build
import Workflow.Proofs.Results

/-!
# Building is exact

What a definition has to be for a process to be built of it, which process that is, and which flaw is reported
otherwise. Nodes are listed before those below them.
-/

namespace Workflow

/-! ## What names stand for -/

namespace Registry

variable (r : Registry)

/-- The condition that a name stands for: the registered one, else the guard that it reads as. -/
inductive IsCondition : String → Condition → Prop
  | registered {name : String} {check : Entity → Bool} (h : r.conditions.lookup name = some check) :
      IsCondition name (.named name check)
  | guard {text : String} {g : Guard} (hfree : text ∉ r.conditions.map Prod.fst) (hg : Guard.parse text = .ok g)
      (huser : g.referencesUser = false) : IsCondition text (.guarded text g)

inductive IsPermission : String → Permission → Prop
  | registered {name : String} {check : Entity → Caller → Bool} (h : r.permissions.lookup name = some check) :
      IsPermission name (.named name check)
  | guard {text : String} {g : Guard} (hfree : text ∉ r.permissions.map Prod.fst) (hg : Guard.parse text = .ok g) :
      IsPermission text (.guarded text g)

def HasCondition (name : String) : Prop :=
  name ∈ r.conditions.map Prod.fst ∨ ∃ g, Guard.parse name = .ok g ∧ g.referencesUser = false

def HasPermission (name : String) : Prop :=
  name ∈ r.permissions.map Prod.fst ∨ ∃ g, Guard.parse name = .ok g

def HasCommand (name : String) : Prop :=
  name ∈ r.commands.map Command.name

/-! What is wrong with a name. -/

def conditionFlaws (name : String) : List EngineError :=
  if name ∈ r.conditions.map Prod.fst then []
  else match Guard.parse name with
    | .error cause => [.invalidGuard cause]
    | .ok g => if g.referencesUser then [.invalidGuard (.callerInCondition name)] else []

def permissionFlaws (name : String) : List EngineError :=
  if name ∈ r.permissions.map Prod.fst then []
  else match Guard.parse name with
    | .error cause => [.invalidGuard cause]
    | .ok _ => []

def commandFlaws (name : String) : List EngineError :=
  if name ∈ r.commands.map Command.name then [] else [.unknownCommand name]

variable {r} {name : String}

theorem lookup_eq_none {α : Type} {entries : List (String × α)} :
    entries.lookup name = none ↔ name ∉ entries.map Prod.fst := by
  simp only [List.lookup_eq_none_iff, bne_iff_ne, List.mem_map, not_exists, not_and]
  exact ⟨fun h entry hentry hname => h entry hentry hname.symm,
    fun h entry hentry hname => h entry hentry hname.symm⟩

theorem exists_lookup {α : Type} {entries : List (String × α)} (h : name ∈ entries.map Prod.fst) :
    ∃ a, entries.lookup name = some a := by
  cases hlookup : entries.lookup name with
  | none => exact absurd h (lookup_eq_none.1 hlookup)
  | some a => exact ⟨a, rfl⟩

theorem ofText_eq_ok {c : Condition} :
    Condition.ofText name = .ok c ↔
      ∃ g, Guard.parse name = .ok g ∧ g.referencesUser = false ∧ c = .guarded name g := by
  rw [Condition.ofText, bind_eq_ok]
  refine exists_congr fun g => and_congr_right fun _ => ?_
  cases g.referencesUser with
  | true => simp
  | false => simp [pure, Except.pure, eq_comm]

theorem condition_eq_ok {c : Condition} : r.condition name = .ok c ↔ r.IsCondition name c := by
  constructor
  · intro h
    simp only [condition] at h
    split at h
    case h_1 check hlookup =>
      cases h
      exact .registered hlookup
    case h_2 hlookup =>
      obtain ⟨g, hparse, huser, rfl⟩ := ofText_eq_ok.1 (mapError_eq_ok.1 h)
      exact .guard (lookup_eq_none.1 hlookup) hparse huser
  · rintro (hlookup | ⟨hfree, hparse, huser⟩)
    · simp [condition, hlookup]
    · simpa [condition, lookup_eq_none.2 hfree] using mapError_eq_ok.2 (ofText_eq_ok.2 ⟨_, hparse, huser, rfl⟩)

theorem permission_eq_ok {p : Permission} : r.permission name = .ok p ↔ r.IsPermission name p := by
  constructor
  · intro h
    simp only [permission] at h
    split at h
    case h_1 check hlookup =>
      cases h
      exact .registered hlookup
    case h_2 hlookup =>
      obtain ⟨g, hparse, heq⟩ := bind_eq_ok.1 (mapError_eq_ok.1 h)
      cases heq
      exact .guard (lookup_eq_none.1 hlookup) hparse
  · rintro (hlookup | ⟨hfree, hparse⟩)
    · simp [permission, hlookup]
    · have hread : Permission.ofText name = .ok (.guarded name _) := bind_eq_ok.2 ⟨_, hparse, rfl⟩
      simpa [permission, lookup_eq_none.2 hfree] using mapError_eq_ok.2 hread

theorem command_eq_ok {c : Command} : r.command name = .ok c ↔ r.command? name = some c := by
  cases h : r.command? name <;> simp [command, h]

theorem command?_eq_none : r.command? name = none ↔ name ∉ r.commands.map Command.name := by
  simp [command?]

theorem condition_reports (name : String) : Reports (r.condition name) (r.conditionFlaws name) := by
  by_cases hname : name ∈ r.conditions.map Prod.fst
  · obtain ⟨check, hlookup⟩ := exists_lookup hname
    simp [condition, hlookup, conditionFlaws, hname, Reports]
  · simp only [condition, lookup_eq_none.2 hname, conditionFlaws, hname, Condition.ofText]
    cases Guard.parse name with
    | error cause => rfl
    | ok g =>
        cases huser : g.referencesUser <;>
          simp [Reports, huser, Except.mapError, bind, Except.bind, pure, Except.pure]

theorem permission_reports (name : String) : Reports (r.permission name) (r.permissionFlaws name) := by
  by_cases hname : name ∈ r.permissions.map Prod.fst
  · obtain ⟨check, hlookup⟩ := exists_lookup hname
    simp [permission, hlookup, permissionFlaws, hname, Reports]
  · simp only [permission, lookup_eq_none.2 hname, permissionFlaws, hname, Permission.ofText]
    cases Guard.parse name <;> rfl

theorem command_reports (name : String) : Reports (r.command name) (r.commandFlaws name) := by
  cases h : r.command? name with
  | none => simp [command, h, commandFlaws, command?_eq_none.1 h, Reports]
  | some c =>
      have hname : name ∈ r.commands.map Command.name := by
        by_contra hfree
        simp [command?_eq_none.2 hfree] at h
      simp [command, h, commandFlaws, hname, Reports]

theorem conditionFlaws_eq_nil : r.conditionFlaws name = [] ↔ r.HasCondition name := by
  by_cases hname : name ∈ r.conditions.map Prod.fst
  · simp only [conditionFlaws, HasCondition, hname, if_true, true_or]
  · cases hparse : Guard.parse name <;> simp [conditionFlaws, HasCondition, hname, hparse]

theorem permissionFlaws_eq_nil : r.permissionFlaws name = [] ↔ r.HasPermission name := by
  by_cases hname : name ∈ r.permissions.map Prod.fst
  · simp only [permissionFlaws, HasPermission, hname, if_true, true_or]
  · cases hparse : Guard.parse name <;> simp [permissionFlaws, HasPermission, hname, hparse]

theorem commandFlaws_eq_nil : r.commandFlaws name = [] ↔ r.HasCommand name := by
  simp [commandFlaws, HasCommand]

end Registry

/-! ## Transitions -/

theorem Transition.isAction_iff {t : Transition} : t.isAction ↔ t.target = none := by
  unfold isAction target
  cases t.effect <;> simp

namespace TransitionDefinition

/-- What makes a transition of the definition. -/
structure WellFormed (r : Registry) (d : TransitionDefinition) : Prop where
  conditions : ∀ name ∈ d.conditions, r.HasCondition name
  permissions : ∀ name ∈ d.permissions, r.HasPermission name
  commands : ∀ name ∈ d.sideEffects ++ d.callbacks ++ d.failureCallbacks, r.HasCommand name
  action : ¬ Text.isBlankText d.action
  sources : d.sources ≠ []
  keeps : d.target = none → d.inProgress = none ∧ d.next = none

/-- The transition has all of the definition, in its order, and its sources as a set. -/
structure Mirrors (r : Registry) (d : TransitionDefinition) (t : Transition) : Prop where
  action : t.action = d.action
  sources : ∀ state, state ∈ t.sources ↔ state ∈ d.sources
  ascending : Names.Ascending t.sources
  isAction : t.isAction ↔ d.target = none
  target : t.target = d.target
  inProgress : t.inProgress = d.inProgress
  next : t.next = d.next
  failed : t.failed = d.failed
  conditions : List.Forall₂ r.IsCondition d.conditions t.conditions
  permissions : List.Forall₂ r.IsPermission d.permissions t.permissions
  sideEffects : List.Forall₂ (fun name c => r.command? name = some c) d.sideEffects t.sideEffects
  callbacks : List.Forall₂ (fun name c => r.command? name = some c) d.callbacks t.callbacks
  failureCallbacks : List.Forall₂ (fun name c => r.command? name = some c) d.failureCallbacks t.failureCallbacks

/-- What is wrong with a definition apart from the names of predicates and commands. -/
def shapeFlaws (d : TransitionDefinition) : List DefinitionError :=
  (if Text.isBlankText d.action then [.blankActionName] else []) ++
  (if d.sources = [] then [.noSources d.action] else []) ++
  (if d.target = none ∧ d.inProgress ≠ none then [.actionInProgress d.action] else []) ++
  (if d.target = none ∧ d.next ≠ none then [.actionNext d.action] else [])

def flaws (r : Registry) (d : TransitionDefinition) : List EngineError :=
  d.conditions.flatMap r.conditionFlaws ++ (d.permissions.flatMap r.permissionFlaws ++
  (d.sideEffects.flatMap r.commandFlaws ++ (d.callbacks.flatMap r.commandFlaws ++
  (d.failureCallbacks.flatMap r.commandFlaws ++ d.shapeFlaws.map .invalidDefinition))))

variable {r : Registry} {d : TransitionDefinition} {t : Transition} {effect : Effect}

theorem checkedEffect_reports (d : TransitionDefinition) : Reports d.checkedEffect d.shapeFlaws := by
  unfold checkedEffect shapeFlaws
  by_cases haction : Text.isBlankText d.action
  · simp [haction, Reports]
  by_cases hsources : d.sources = []
  · simp [haction, hsources, Reports]
  unfold TransitionDefinition.effect
  cases d.target with
  | some target => simp [haction, hsources, Reports]
  | none =>
      cases hin : d.inProgress with
      | some state => simp [haction, hsources, Reports]
      | none => cases hnext : d.next <;> simp [haction, hsources, Reports]

theorem shapeFlaws_eq_nil : d.shapeFlaws = [] ↔
    ¬ Text.isBlankText d.action ∧ d.sources ≠ [] ∧
      (d.target = none → d.inProgress = none ∧ d.next = none) := by
  simp only [shapeFlaws, List.append_eq_nil_iff, ite_eq_right_iff, reduceCtorEq, imp_false, not_and, not_not]
  grind

theorem checkedEffect_eq_ok : d.checkedEffect = .ok t.effect ↔
    d.shapeFlaws = [] ∧ t.target = d.target ∧ t.inProgress = d.inProgress ∧ t.next = d.next := by
  rw [shapeFlaws_eq_nil]
  simp only [checkedEffect, TransitionDefinition.effect, Transition.target, Transition.inProgress, Transition.next]
  cases t.effect <;> cases d.target <;> grind [Option.isSome_iff_ne_none]

theorem build_reports (r : Registry) (d : TransitionDefinition) : Reports (d.build r) (d.flaws r) := by
  unfold build flaws
  refine (Reports.mapM fun name _ => r.condition_reports name).bind fun _ => ?_
  refine (Reports.mapM fun name _ => r.permission_reports name).bind fun _ => ?_
  refine (Reports.mapM fun name _ => r.command_reports name).bind fun _ => ?_
  refine (Reports.mapM fun name _ => r.command_reports name).bind fun _ => ?_
  refine (Reports.mapM fun name _ => r.command_reports name).bind fun _ => ?_
  rw [← List.append_nil (List.map _ _)]
  exact (d.checkedEffect_reports.mapError _).bind fun _ => .pure _

theorem flaws_eq_nil : d.flaws r = [] ↔ d.WellFormed r := by
  simp only [flaws, List.append_eq_nil_iff, List.flatMap_eq_nil_iff, List.map_eq_nil_iff, shapeFlaws_eq_nil,
    Registry.conditionFlaws_eq_nil, Registry.permissionFlaws_eq_nil, Registry.commandFlaws_eq_nil]
  constructor
  · rintro ⟨hconditions, hpermissions, hside, hcallbacks, hfailure, haction, hsources, hkeeps⟩
    refine ⟨hconditions, hpermissions, ?_, haction, hsources, hkeeps⟩
    simp only [List.mem_append]
    rintro name ((h | h) | h)
    · exact hside name h
    · exact hcallbacks name h
    · exact hfailure name h
  · intro h
    refine ⟨h.conditions, h.permissions, ?_, ?_, ?_, h.action, h.sources, h.keeps⟩ <;>
      exact fun name hname => h.commands name (by simp [hname])

theorem mirrors_of_build (h : d.build r = .ok t) : d.Mirrors r t := by
  simp only [build, bind_eq_ok, mapM_eq_ok, mapError_eq_ok, Registry.condition_eq_ok, Registry.permission_eq_ok,
    Registry.command_eq_ok] at h
  obtain ⟨conditions, hconditions, permissions, hpermissions, sideEffects, hside, callbacks, hcallbacks,
    failureCallbacks, hfailure, effect, heffect, heq⟩ := h
  have ht : t.effect = effect := by cases heq; rfl
  subst ht
  obtain ⟨-, htarget, hin, hnext⟩ := checkedEffect_eq_ok.1 heffect
  rw [← Except.ok.inj heq] at htarget hin hnext ⊢
  exact {
    action := rfl
    sources := fun _ => Names.mem_ofList
    ascending := Names.ascending_ofList _
    isAction := by rw [← htarget, Transition.isAction_iff]
    target := htarget
    inProgress := hin
    next := hnext
    failed := rfl
    conditions := hconditions
    permissions := hpermissions
    sideEffects := hside
    callbacks := hcallbacks
    failureCallbacks := hfailure }

theorem build_of_mirrors (hd : d.WellFormed r) (ht : d.Mirrors r t) : d.build r = .ok t := by
  have hsources : t.sources = Names.ofList d.sources :=
    ht.ascending.eq_of_mem_iff (Names.ascending_ofList _) fun state =>
      (ht.sources state).trans Names.mem_ofList.symm
  have hshape : d.shapeFlaws = [] := shapeFlaws_eq_nil.2 ⟨hd.action, hd.sources, hd.keeps⟩
  have heffect := checkedEffect_eq_ok.2 ⟨hshape, ht.target, ht.inProgress, ht.next⟩
  simp only [build, bind_eq_ok, mapM_eq_ok, mapError_eq_ok, Registry.condition_eq_ok, Registry.permission_eq_ok,
    Registry.command_eq_ok]
  refine ⟨_, ht.conditions, _, ht.permissions, _, ht.sideEffects, _, ht.callbacks, _, ht.failureCallbacks, _,
    heffect, ?_⟩
  rw [← ht.action, ← hsources, ← ht.failed]
  rfl

end TransitionDefinition

/-! ## Trees -/

namespace ProcessDefinition

mutual

/-- The nodes of the tree, each before those below it. -/
def nodes : ProcessDefinition → List ProcessDefinition
  | ⟨name, conditions, permissions, transitions, nested⟩ =>
    ⟨name, conditions, permissions, transitions, nested⟩ :: nodesIn nested

def nodesIn : List ProcessDefinition → List ProcessDefinition
  | [] => []
  | d :: ds => d.nodes ++ nodesIn ds

end

structure WellFormed (r : Registry) (d : ProcessDefinition) : Prop where
  name : ¬ Text.isBlankText d.name
  conditions : ∀ name ∈ d.conditions, r.HasCondition name
  permissions : ∀ name ∈ d.permissions, r.HasPermission name
  transitions : ∀ t ∈ d.transitions, t.WellFormed r

inductive Mirrors (r : Registry) : ProcessDefinition → Process → Prop
  | node {d : ProcessDefinition} {p : Process} (hname : p.name = d.name)
      (hconditions : List.Forall₂ r.IsCondition d.conditions p.conditions)
      (hpermissions : List.Forall₂ r.IsPermission d.permissions p.permissions)
      (htransitions : List.Forall₂ (TransitionDefinition.Mirrors r) d.transitions p.transitions)
      (hnested : List.Forall₂ (Mirrors r) d.nested p.nested) : Mirrors r d p

/-- What is wrong with a node, those below it apart. -/
def flaws (r : Registry) (d : ProcessDefinition) : List EngineError :=
  (if Text.isBlankText d.name then [.invalidDefinition .blankProcessName] else []) ++
  (d.conditions.flatMap r.conditionFlaws ++ (d.permissions.flatMap r.permissionFlaws ++
  d.transitions.flatMap (TransitionDefinition.flaws r)))

variable {r : Registry}

theorem flaws_eq_nil {d : ProcessDefinition} : d.flaws r = [] ↔ d.WellFormed r := by
  simp only [flaws, List.append_eq_nil_iff, List.flatMap_eq_nil_iff, ite_eq_right_iff, reduceCtorEq, imp_false,
    Registry.conditionFlaws_eq_nil, Registry.permissionFlaws_eq_nil, TransitionDefinition.flaws_eq_nil]
  constructor
  · rintro ⟨hname, hconditions, hpermissions, htransitions⟩
    exact ⟨hname, hconditions, hpermissions, htransitions⟩
  · exact fun h => ⟨h.name, h.conditions, h.permissions, h.transitions⟩

mutual

theorem build_reports (r : Registry) : (d : ProcessDefinition) →
    Reports (d.build r) (d.nodes.flatMap (flaws r))
  | ⟨name, conditions, permissions, transitions, nested⟩ => by
      simp only [build, nodes, List.flatMap_cons, flaws, List.append_assoc]
      by_cases hname : Text.isBlankText name
      · simp [hname, Reports]
      · rw [if_neg hname, if_neg hname, List.nil_append]
        refine (Reports.mapM fun name _ => r.condition_reports name).bind fun _ => ?_
        refine (Reports.mapM fun name _ => r.permission_reports name).bind fun _ => ?_
        refine (Reports.mapM fun t _ => t.build_reports r).bind fun _ => ?_
        rw [← List.append_nil (List.flatMap _ _)]
        exact (buildAll_reports r nested).bind fun _ => .pure _

theorem buildAll_reports (r : Registry) : (ds : List ProcessDefinition) →
    Reports (buildAll r ds) ((nodesIn ds).flatMap (flaws r))
  | [] => .pure _
  | d :: ds => by
      simp only [buildAll, nodesIn, List.flatMap_append]
      refine (d.build_reports r).bind fun _ => ?_
      rw [← List.append_nil (List.flatMap _ _)]
      exact (buildAll_reports r ds).bind fun _ => .pure _

end

theorem exists_build_iff {d : ProcessDefinition} :
    (∃ p, d.build r = .ok p) ↔ ∀ node ∈ d.nodes, node.WellFormed r := by
  simp only [(d.build_reports r).exists_ok_iff, List.flatMap_eq_nil_iff, flaws_eq_nil]

mutual

theorem mirrors_of_build : (d : ProcessDefinition) → {p : Process} → d.build r = .ok p → d.Mirrors r p
  | ⟨name, conditions, permissions, transitions, nested⟩, p, h => by
      simp only [build] at h
      split at h
      · cases h
      · simp only [bind_eq_ok, mapM_eq_ok, Registry.condition_eq_ok, Registry.permission_eq_ok] at h
        obtain ⟨_, hconditions, _, hpermissions, _, htransitions, _, hnested, heq⟩ := h
        cases heq
        exact .node rfl hconditions hpermissions
          (htransitions.imp fun _ _ => TransitionDefinition.mirrors_of_build) (mirrors_of_buildAll nested hnested)

theorem mirrors_of_buildAll : (ds : List ProcessDefinition) → {ps : List Process} → buildAll r ds = .ok ps →
    List.Forall₂ (Mirrors r) ds ps
  | [], _, h => by
      cases h
      exact .nil
  | d :: ds, _, h => by
      simp only [buildAll, bind_eq_ok] at h
      obtain ⟨p, hp, ps, hps, heq⟩ := h
      cases heq
      exact .cons (mirrors_of_build d hp) (mirrors_of_buildAll ds hps)

end

mutual

theorem build_of_mirrors : (d : ProcessDefinition) → {p : Process} →
    (∀ node ∈ d.nodes, node.WellFormed r) → d.Mirrors r p → d.build r = .ok p
  | ⟨name, conditions, permissions, transitions, nested⟩, ⟨_, _, _, _, _⟩, hd, hp => by
      simp only [nodes, List.forall_mem_cons] at hd
      obtain ⟨hnode, hnested⟩ := hd
      cases hp with
      | node hname hconditions hpermissions htransitions hmirrors =>
          cases hname
          have hbuilt := (List.forall₂_and_left _ _).2 ⟨hnode.transitions, htransitions⟩
          simp only [build, if_neg hnode.name, bind_eq_ok, mapM_eq_ok, Registry.condition_eq_ok,
            Registry.permission_eq_ok]
          exact ⟨_, hconditions, _, hpermissions, _,
            hbuilt.imp fun _ _ h => TransitionDefinition.build_of_mirrors h.1 h.2, _,
            buildAll_of_mirrors nested hnested hmirrors, rfl⟩

theorem buildAll_of_mirrors : (ds : List ProcessDefinition) → {ps : List Process} →
    (∀ node ∈ nodesIn ds, node.WellFormed r) → List.Forall₂ (Mirrors r) ds ps → buildAll r ds = .ok ps
  | [], _, _, .nil => rfl
  | d :: ds, _, hd, .cons hp hps => by
      simp only [nodesIn, List.forall_mem_append] at hd
      simp only [buildAll, bind_eq_ok]
      exact ⟨_, build_of_mirrors d hd.1 hp, _, buildAll_of_mirrors ds hd.2 hps, rfl⟩

end

/-- Building a definition is exact, and all or nothing. -/
theorem build_exact (r : Registry) (d : ProcessDefinition) :
    ((∃ p, d.build r = .ok p) ↔ ∀ node ∈ d.nodes, node.WellFormed r) ∧
      (∀ p, d.build r = .ok p ↔ (∀ node ∈ d.nodes, node.WellFormed r) ∧ d.Mirrors r p) ∧
      ∀ e, d.build r = .error e ↔ (d.nodes.flatMap (flaws r)).head? = some e := by
  refine ⟨exists_build_iff, fun p => ⟨fun h => ?_, fun h => ?_⟩, fun e => (d.build_reports r).eq_error_iff⟩
  · exact ⟨exists_build_iff.1 ⟨p, h⟩, mirrors_of_build d h⟩
  · exact build_of_mirrors d h.1 h.2

end ProcessDefinition

end Workflow
