import Workflow.Transition

/-!
# Processes

A process is a tree: guards, transitions and nested processes, all in the order of their declaration.
-/

namespace Workflow

structure Process where
  name : String
  conditions : List Condition
  permissions : List Permission
  transitions : List Transition
  nested : List Process

namespace Process

mutual

/-- The transitions of the whole tree, those of a node before those below it. -/
def allTransitions : Process → List Transition
  | ⟨_, _, _, transitions, nested⟩ => transitions ++ allTransitionsIn nested

def allTransitionsIn : List Process → List Transition
  | [] => []
  | p :: ps => p.allTransitions ++ allTransitionsIn ps

end

def allStates (p : Process) : List String :=
  Names.ofList (p.allTransitions.flatMap fun t => t.sources ++ t.writes)

def targetStates (p : Process) : List String :=
  Names.ofList (p.allTransitions.flatMap Transition.writes)

mutual

/-- The first process of the given name below the root, a node before those below it. -/
def find? (name : String) : Process → Option Process
  | ⟨_, _, _, _, nested⟩ => findIn? name nested

def findIn? (name : String) : List Process → Option Process
  | [] => none
  | p :: ps =>
    if p.name = name then some p
    else match find? name p with
      | some found => some found
      | none => findIn? name ps

end

theorem findIn?_cons (name : String) (p : Process) (ps : List Process) : findIn? name (p :: ps) =
    if p.name = name then some p else (p.find? name).or (findIn? name ps) := by
  rw [findIn?]
  cases find? name p <;> rfl

/-- The node reached by the given positions among nested processes. -/
def descendant? (p : Process) : List Nat → Option Process
  | [] => some p
  | i :: path => p.nested[i]?.bind fun child => child.descendant? path

end Process

end Workflow
