/-!
# Hexadecimal texts
-/

namespace Workflow.Text

def hexDigit (n : Nat) : Char :=
  (Nat.toDigits 16 n).headD '0'

def hexBytes (bytes : List UInt8) : String :=
  String.ofList (bytes.flatMap fun b => [hexDigit (b.toNat / 16), hexDigit (b.toNat % 16)])

end Workflow.Text
