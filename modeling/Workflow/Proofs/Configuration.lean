import Workflow.Proofs.Results
import Workflow.Proofs.Variables
import Workflow.Proofs.Yaml.Records

/-!
# Layers of a configuration

A configuration is loaded from the variables, the file that one of them names and the standard values, each setting on
its own. It is checked last, so that what is loaded is always sound.
-/

namespace Workflow

open Yaml

/-! ## Settings -/

/-- One value of a configuration, with the places it is taken from. -/
structure Setting (α : Type) where
  value : Config → α
  variableName : String
  /-- The text of the variable stands for the value. -/
  Usable : String → α → Prop
  sectionName : String
  key : String
  read : NodeReader α

namespace Setting

variable {α : Type}

def lockTtl : Setting Nat :=
  ⟨Config.lockTtl, "FLOWGATE_LOCK_TTL_SECS", Word64, "locks", "ttl_secs", naturalBelow (Nat.pow 2 64)⟩

def lockPrefix : Setting String :=
  ⟨Config.lockPrefix, "FLOWGATE_LOCK_PREFIX", fun text value => value = text, "locks", "key_prefix", Node.text?⟩

def eventCapacity : Setting Nat :=
  ⟨Config.eventCapacity, "FLOWGATE_EVENT_CAPACITY", Word64, "events", "channel_capacity",
    naturalBelow (Nat.pow 2 64)⟩

def executor : Setting ExecutorMode :=
  ⟨Config.executor, "FLOWGATE_EXECUTOR", fun text mode => mode = .blockingPool ↔ IsPool text, "executor", "mode",
    fun node => node.text?.bind ExecutorMode.ofName?⟩

/-- What a document gives for the setting: the value of its key in its section. -/
def given? (s : Setting α) (document : Node) : Option α :=
  (document.member? s.sectionName).bind fun node => (node.member? s.key).bind s.read

/-- The configuration has the value of the variable where that is set to a usable text, else that of the document where
it gives one, else the standard value. -/
structure Takes (s : Setting α) (env : Environment) (document : Option Node) (c : Config) : Prop where
  overridden : ∀ text value, env s.variableName = some text → s.Usable text value → s.value c = value
  kept : (∀ text value, env s.variableName = some text → ¬ s.Usable text value) →
    s.value c = (document.bind s.given?).getD (s.value .standard)

end Setting

namespace Config

/-- Every setting is taken for itself, whatever the others are. -/
structure Layered (env : Environment) (document : Option Node) (c : Config) : Prop where
  lockTtl : Setting.lockTtl.Takes env document c
  lockPrefix : Setting.lockPrefix.Takes env document c
  eventCapacity : Setting.eventCapacity.Takes env document c
  executor : Setting.executor.Takes env document c

end Config

/-! ## The file -/

namespace Setting

variable {α : Type} {s : Setting α} {name : String} {fields : Nat → List (RecordField Config)}

/-- What a section is to a setting: its own, where the key stores it, or one that leaves it alone. -/
inductive Meets (s : Setting α) (name : String) (fields : Nat → List (RecordField Config)) : Prop
  | own (hname : name = s.sectionName) (hfields : ∀ depth, Keyed s.value s.read s.key (fields depth))
  | other (hname : name ≠ s.sectionName) (hfields : ∀ depth, ∀ f ∈ fields depth, Keeps s.value f.store)

theorem Meets.gives (h : s.Meets name fields) (hname : name = s.sectionName) (depth : Nat) :
    Gives s.value (Config.sectionField name depth fields).store fun node => (node.member? s.key).bind s.read := by
  cases h with
  | own _ hfields => exact record_gives hfields depth
  | other hne _ => exact absurd hname hne

theorem Meets.keeps (h : s.Meets name fields) (hname : name ≠ s.sectionName) (depth : Nat) :
    Keeps s.value (Config.sectionField name depth fields).store := by
  cases h with
  | own heq _ => exact absurd heq hname
  | other _ hfields => exact record_keeps hfields depth

variable {part : Config → α}

/-- What every setting has: its variable is parsed to what is usable of it, and its key stores it. -/
structure Wired (s : Setting α) (parse : String → Option α) : Prop where
  usable : ∀ text value, parse text = some value ↔ s.Usable text value
  override : ∀ (env : Environment) (c : Config),
    s.value (c.override env) = ((env s.variableName).bind parse).getD (s.value c)
  sections : ∀ depth,
    Keyed s.value (fun node => (node.member? s.key).bind s.read) s.sectionName (Config.sections depth)

end Setting

/-! ## Loading -/

namespace Config

variable {env : Environment} {files : Files} {path text : String} {c : Config}

end Config

namespace Setting

variable {α : Type} {s : Setting α} {env : Environment} {document : Option Node} {c c' : Config}

/-- A setting of what was read, once the variables have overridden it. -/
theorem Wired.takes {parse : String → Option α} (hs : s.Wired parse)
    (hc : s.value c = (document.bind s.given?).getD (s.value .standard)) : s.Takes env document (c.override env) where
  overridden text value htext husable := by
    rw [hs.override, htext, Option.bind_some, (hs.usable text value).2 husable, Option.getD_some]
  kept hunusable := by
    have hnone : (env s.variableName).bind parse = none := by
      rw [Option.bind_eq_none_iff]
      intro text htext
      rw [Option.eq_none_iff_forall_ne_some]
      exact fun value hparse => hunusable text value htext ((hs.usable text value).1 hparse)
    rw [hs.override, hnone, Option.getD_none, hc]

theorem Takes.unique (h : s.Takes env document c) (h' : s.Takes env document c') : s.value c = s.value c' := by
  -- That a text is usable as one value only is not needed: both have every value that it is usable as.
  by_cases husable : ∃ text value, env s.variableName = some text ∧ s.Usable text value
  · obtain ⟨text, value, htext, husable⟩ := husable
    rw [h.overridden text value htext husable, h'.overridden text value htext husable]
  · have hunusable : ∀ text value, env s.variableName = some text → ¬ s.Usable text value :=
      fun text value htext hvalue => husable ⟨text, value, htext, hvalue⟩
    rw [h.kept hunusable, h'.kept hunusable]

end Setting

namespace Config

variable {env : Environment} {files : Files} {document : Option Node} {c c' : Config}

/-- There is one configuration of these layers. -/
theorem Layered.unique (h : c.Layered env document) (h' : c'.Layered env document) : c = c' := by
  cases c
  cases c'
  congr 1
  · exact h.lockTtl.unique h'.lockTtl
  · exact h.lockPrefix.unique h'.lockPrefix
  · exact h.eventCapacity.unique h'.eventCapacity
  · exact h.executor.unique h'.executor

/-- A variable can also spoil what is sound without it. -/
example : load (fun name => if name = "FLOWGATE_LOCK_PREFIX" then some "" else none) (fun _ => .error .notFound) =
    .error (.invalid .emptyPrefix) := by
  decide

end Config

end Workflow
