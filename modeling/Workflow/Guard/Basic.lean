import Workflow.Entity
import Workflow.Text.Alphanumeric
import Workflow.Text.Blank

/-!
# Guards

A guard is a boolean expression over the fields of an entity (`ctx.`) and the attributes of a caller
(`user.`). A path that leads nowhere has the value `null`.
-/

namespace Workflow

namespace Guard

/-- Where a path starts. -/
inductive Root
  | ctx
  | user
deriving DecidableEq, Repr

/-- A path through nested objects. -/
structure Path where
  root : Root
  parts : List String
deriving DecidableEq, Repr

/-- A value to compare with. -/
inductive Constant
  | null
  | bool (value : Bool)
  | num (value : Binary64)
  | str (value : String)
deriving DecidableEq, Repr

inductive Comparison
  | gt
  | ge
  | lt
  | le
deriving DecidableEq, Repr

end Guard

open Guard in
inductive Guard
  | truthy (path : Path)
  | equals (path : Path) (value : Constant)
  | differs (path : Path) (value : Constant)
  | compare (op : Comparison) (path : Path) (bound : Binary64)
  | and (left right : Guard)
  | or (left right : Guard)
  | not (inner : Guard)
deriving DecidableEq, Repr

namespace Guard

/-! ## Values of paths -/

/-- What a guard reads from. -/
structure Scope where
  fields : Table
  attributes : Option Table

def Scope.of (entity : Entity) (caller : Option Caller) : Scope :=
  ⟨entity.fields, caller.map Caller.attributes⟩

def follow (value : Json) : List String → Json
  | [] => value
  | part :: parts =>
    match value with
    | .obj members => follow ((Table.get? members part).getD .null) parts
    | _ => .null

def Scope.resolve (scope : Scope) (path : Path) : Json :=
  let table := match path.root with
    | .ctx => scope.fields
    | .user => scope.attributes.getD []
  match path.parts with
  | [] => .null
  | part :: parts => follow ((Table.get? table part).getD .null) parts

/-! ## Evaluation -/

/-- Equality of a value with a constant of the same kind; numbers need only be near. -/
def Constant.equals : Constant → Json → Bool
  | .null, .null => true
  | .bool a, .bool b => a == b
  | .num x, .num n => n.toBinary64.isNear x
  | .str a, .str b => a == b
  | _, _ => false

def Comparison.holds : Comparison → Binary64 → Binary64 → Bool
  | .gt, x, y => y.lt x
  | .ge, x, y => y.le x
  | .lt, x, y => x.lt y
  | .le, x, y => x.le y

def eval (scope : Scope) : Guard → Bool
  | truthy path => (scope.resolve path).isTruthy
  | equals path c => c.equals (scope.resolve path)
  | differs path c => !c.equals (scope.resolve path)
  | compare op path bound =>
    match (scope.resolve path).asBinary64? with
    | some x => op.holds x bound
    | none => false
  | and l r => l.eval scope && r.eval scope
  | or l r => l.eval scope || r.eval scope
  | not g => !g.eval scope

def referencesUser : Guard → Bool
  | truthy path | equals path _ | differs path _ | compare _ path _ => path.root == .user
  | and l r | or l r => l.referencesUser || r.referencesUser
  | not g => g.referencesUser

end Guard

end Workflow
