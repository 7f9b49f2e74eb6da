import Workflow.Error

/-!
# Contexts

What travels with a run: the caller on whose behalf it was started, data for its commands, and on the
failure path the failure that led there.
-/

namespace Workflow

structure Context where
  user : Option Caller
  data : Table
  failure : Option CommandFailure
deriving Repr, Inhabited

namespace Context

def empty : Context := ⟨none, [], none⟩

def withUser (c : Context) (user : Option Caller) : Context :=
  { c with user := user }

def insert (c : Context) (name : String) (value : Json) : Context :=
  { c with data := Table.insert name value c.data }

def get? (c : Context) (name : String) : Option Json :=
  Table.get? c.data name

def withFailure (c : Context) (failure : CommandFailure) : Context :=
  { c with failure := some failure }

def withoutFailure (c : Context) : Context :=
  { c with failure := none }

end Context

end Workflow
