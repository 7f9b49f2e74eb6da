import Workflow.Config.Basic
import Workflow.Yaml.Reader
import Workflow.Yaml.Record

/-!
# Reading configurations from YAML

Every section and every key of it may be absent; what is absent has its standard value.
-/

namespace Workflow

open Yaml

def ExecutorMode.ofName? : String → Option ExecutorMode
  | "inline" => some .inline
  | "blocking_pool" => some .blockingPool
  | _ => none

namespace Config

def lockFields (_ : Nat) : List (RecordField Config) :=
  [.of "ttl_secs" false (naturalBelow (Nat.pow 2 64)) fun n c => { c with lockTtl := n },
   .of "key_prefix" false Node.text? fun s c => { c with lockPrefix := s }]

def eventFields (_ : Nat) : List (RecordField Config) :=
  [.of "channel_capacity" false (naturalBelow (Nat.pow 2 64)) fun n c => { c with eventCapacity := n }]

def executorFields (_ : Nat) : List (RecordField Config) :=
  [.of "mode" false (fun node => node.text?.bind ExecutorMode.ofName?) fun m c =>
    { c with executor := m }]

/-- A section, whose fields are stored into what was read before. -/
def sectionField (name : String) (depth : Nat) (fields : Nat → List (RecordField Config)) :
    RecordField Config :=
  ⟨name, false, fun node c => record depth fields c node⟩

def sections (depth : Nat) : List (RecordField Config) :=
  [sectionField "locks" depth lockFields,
   sectionField "events" depth eventFields,
   sectionField "executor" depth executorFields]

def ofYaml? (text : String) : Option Config :=
  (Node.ofText? text).bind (record maxDepth sections standard)

end Config

end Workflow
