import Workflow.Engine.Checks

/-!
# Resolution

The transitions of a process that are available now, in the order of a walk that meets a node's own
transitions before its nested processes. The walk is driven by its reader: it asks no further question
once the reader has seen enough. A store error is an item of its own, and the walk goes on behind it.
-/

namespace Workflow

/-- A transition that is available, or the error met where one was asked for. -/
abbrev Item := Except EngineError Transition

/-- How long a reader goes on, given the items it has seen, the latest first. -/
abbrev Appetite := List Item → Bool

namespace Appetite

/-- Reads to the first error. -/
def untilError : Appetite
  | .error _ :: _ => false
  | _ => true

/-- Reads at most `n` items. -/
def atMost (n : Nat) : Appetite := fun seen => seen.length < n

/-- Reads to the end. -/
def all : Appetite := fun _ => true

end Appetite

/-- What is asked for: by whom, and which action, if not all. -/
structure Inquiry where
  user : Option Caller
  action : Option String

namespace Inquiry

/-- Whether the action is one of those asked for. -/
def wants (q : Inquiry) (t : Transition) : Bool :=
  match q.action with
  | some action => t.action == action
  | none => true

variable (engine : Engine) (q : Inquiry) (more : Appetite)

/-- The available ones among transitions of one node, put before the items seen so far. -/
def walkOwn : List Transition → List Item → FieldM (List Item)
  | [], seen => return seen
  | t :: ts, seen => do
    if !more seen then return seen
    if !q.wants t then walkOwn ts seen
    else match ← (t.isAvailable engine q.user).run with
      | .ok true => walkOwn ts (.ok t :: seen)
      | .ok false => walkOwn ts seen
      | .error e => walkOwn ts (.error e :: seen)

mutual

/-- The items of a node and all below it; nothing below a node whose guards fail. -/
def walk : Process → List Item → FieldM (List Item)
  | ⟨name, conditions, permissions, transitions, nested⟩, seen => do
    match ← (Process.isValid q.user ⟨name, conditions, permissions, transitions, nested⟩).run with
    | .error e => return .error e :: seen
    | .ok false => return seen
    | .ok true => walkNested nested (← walkOwn engine q more transitions seen)

def walkNested : List Process → List Item → FieldM (List Item)
  | [], seen => return seen
  | p :: ps, seen => do
    if !more seen then return seen
    walkNested ps (← walk p seen)

end

end Inquiry

namespace Process

/-- The items in the order in which they are met, as far as the reader goes. -/
def available (engine : Engine) (q : Inquiry) (more : Appetite) (p : Process) :
    FieldM (List Item) :=
  return (← q.walk engine more p []).reverse

/-- The available transitions, or the first error. -/
def candidates (engine : Engine) (q : Inquiry) (p : Process) : ViewM (List Transition) := do
  let items ← liftM (n := ViewM) (p.available engine q .untilError)
  ExceptT.mk (pure (items.mapM id))

/-- The names of the available actions. -/
def availableActions (engine : Engine) (user : Option Caller) (p : Process) : ViewM (List String) := do
  return Names.ofList ((← p.candidates engine ⟨user, none⟩).map Transition.action)

end Process

/-- What starts a transition with a context, within a process or on its own. -/
abbrev Start := Transition → Context → Option Process → ViewM Unit

/-- Starts the one available transition of the given action. -/
def Process.invokeWith (engine : Engine) (start : Start) (action : String) (context : Context)
    (p : Process) : ViewM Unit := do
  match ← p.candidates engine ⟨context.user, some action⟩ with
  | [t] =>
    start t context (some p)
    let _ ← ViewM.refresh
  | [] => throw (.notAllowed action .noMatch)
  | ts => throw (.notAllowed action (.ambiguous ts.length))

end Workflow
