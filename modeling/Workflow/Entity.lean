import Workflow.Json.Basic

/-!
# Entities, callers and state keys

An entity is a snapshot of a business object, a caller the identity on whose behalf something is
asked for, and a state key names one field of one entity.
-/

namespace Workflow

structure Entity where
  kind : String
  id : String
  fields : Table
deriving Repr, Inhabited

structure Caller where
  id : String
  attributes : Table
deriving Repr

structure StateKey where
  kind : String
  id : String
  field : String
deriving DecidableEq, Repr, Inhabited

namespace Table

def getString? (table : Table) (name : String) : Option String :=
  (get? table name).bind Json.asString?

def holds (table : Table) (name : String) : Bool :=
  ((get? table name).map Json.isTruthy).getD false

end Table

namespace Entity

def get? (e : Entity) (field : String) : Option Json :=
  Table.get? e.fields field

def getString? (e : Entity) (field : String) : Option String :=
  Table.getString? e.fields field

def holds (e : Entity) (field : String) : Bool :=
  Table.holds e.fields field

def set (e : Entity) (field : String) (value : Json) : Entity :=
  { e with fields := Table.insert field value e.fields }

def stateKey (e : Entity) (field : String) : StateKey :=
  ⟨e.kind, e.id, field⟩

end Entity

namespace Caller

def get? (c : Caller) (name : String) : Option Json :=
  Table.get? c.attributes name

def holds (c : Caller) (name : String) : Bool :=
  Table.holds c.attributes name

end Caller

namespace StateKey

def display (k : StateKey) : String :=
  k.kind ++ "/" ++ k.id ++ "." ++ k.field

def le (a b : StateKey) : Bool :=
  if a.kind ≠ b.kind then a.kind < b.kind
  else if a.id ≠ b.id then a.id < b.id
  else a.field ≤ b.field

end StateKey

end Workflow
