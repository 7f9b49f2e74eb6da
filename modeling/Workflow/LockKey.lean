import Workflow.Entity
import Workflow.Hash.Sha256
import Workflow.Text.Hex

/-!
# Lock keys

The key under which a state field is locked: a prefix, a colon and the digest of kind, field and id
with a zero byte between them.
-/

namespace Workflow.StateKey

def identity (k : StateKey) : List UInt8 :=
  k.kind.toUTF8.toList ++ 0 :: (k.field.toUTF8.toList ++ 0 :: k.id.toUTF8.toList)

def lockKey (lockPrefix : String) (k : StateKey) : String :=
  lockPrefix ++ ":" ++ Text.hexBytes (Sha256.digest k.identity)

end Workflow.StateKey
