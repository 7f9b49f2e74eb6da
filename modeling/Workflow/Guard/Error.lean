/-!
# Guard errors
-/

namespace Workflow

/-- Why a text is no guard, or no guard of a condition. -/
inductive GuardError
  | empty
  /-- The number of bytes in front of the place where the guard ends. -/
  | unexpectedInput (position : Nat)
  | expectedClosing
  | expectedField
  | emptyFieldName
  | unterminatedString
  | invalidNumber (text : String)
  | numberOutOfRange (negative : Bool)
  | callerInCondition (text : String)
deriving DecidableEq, Repr

def GuardError.reason : GuardError → String
  | empty => "empty guard expression"
  | unexpectedInput position => "unexpected input at position " ++ toString position
  | expectedClosing => "expected ')'"
  | expectedField => "field must start with 'ctx.' or 'user.'"
  | emptyFieldName => "empty field name"
  | unterminatedString => "unterminated string"
  | invalidNumber text => "invalid number: '" ++ text ++ "'"
  | numberOutOfRange negative => "number out of range: " ++ (if negative then "-inf" else "inf")
  | callerInCondition text => "condition '" ++ text ++ "' may not reference 'user.'"

end Workflow
