import Workflow.Entity
import Workflow.Json.Reader

/-!
# Reading entities, callers and state keys from JSON
-/

namespace Workflow

open Json

def Entity.read (depth : Nat) : Reader Entity :=
  record "Entity" depth (fun d =>
    [.of "kind" true plainText fun s e => { e with kind := s },
     .of "id" true plainText fun s e => { e with id := s },
     .of "fields" false (table d) fun t e => { e with fields := t }]) ⟨"", "", []⟩

def Caller.read (depth : Nat) : Reader Caller :=
  record "Caller" depth (fun d =>
    [.of "id" true plainText fun s c => { c with id := s },
     .of "attributes" false (table d) fun t c => { c with attributes := t }]) ⟨"", []⟩

def StateKey.read (depth : Nat) : Reader StateKey :=
  record "StateKey" depth (fun _ =>
    [.of "kind" true plainText fun s k => { k with kind := s },
     .of "id" true plainText fun s k => { k with id := s },
     .of "field" true plainText fun s k => { k with field := s }]) ⟨"", "", ""⟩

end Workflow
