import Workflow.Json.Token
import Workflow.Number.Layout
import Workflow.Text.Quoted

/-!
# Reading errors

A text is refused because it is no JSON text, because it ends inside a value, or because the value has
the wrong shape.
-/

namespace Workflow.Json

/-- A value that stands where a value of another kind was expected. -/
inductive Unexpected
  | null
  | bool (value : Bool)
  | num (value : Number)
  | str (value : String)
  | sequence
  | map
deriving DecidableEq, Repr

/-- A wrong shape. -/
inductive Mismatch
  | invalidType (found : Unexpected) (expected : String)
  | missingField (name : String)
  | duplicateField (name : String)
  | invalidLength (length : Nat) (expected : String)
deriving DecidableEq, Repr

inductive ReadError
  | malformed
  | truncated
  | mismatch (cause : Mismatch)
deriving DecidableEq, Repr

def Unexpected.text : Unexpected → String
  | .null => "null"
  | .bool b => "boolean `" ++ (if b then "true" else "false") ++ "`"
  | .num (.int n) => "integer `" ++ toString n ++ "`"
  | .num (.float x) => "floating point `" ++ x.written ++ "`"
  | .str s => "string " ++ Text.quoted s
  | .sequence => "sequence"
  | .map => "map"

def Mismatch.message : Mismatch → String
  | .invalidType found expected => "invalid type: " ++ found.text ++ ", expected " ++ expected
  | .missingField name => "missing field `" ++ name ++ "`"
  | .duplicateField name => "duplicate field `" ++ name ++ "`"
  | .invalidLength n expected => "invalid length " ++ toString n ++ ", expected " ++ expected

def ReadError.message : ReadError → String
  | .malformed => "malformed text"
  | .truncated => "text ends inside a value"
  | .mismatch cause => cause.message

end Workflow.Json
