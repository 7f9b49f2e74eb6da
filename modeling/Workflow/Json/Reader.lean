import Workflow.Json.Error

/-!
# Readers

A reader takes one value from the front of the tokens. It reports the first problem from left to right;
a container reports what is wrong with an item before what is wrong with its own end. Every reader of
containers is given how many containers may still be opened inside one another.
-/

namespace Workflow.Json

abbrev Reader (α : Type) := List Token → Except ReadError (α × List Token)

def maxDepth : Nat := 127

/-- The problem with tokens that go on in no possible way. -/
def outOfPlace {α : Type} : List Token → Except ReadError α
  | [] => .error .truncated
  | _ => .error .malformed

/-- The problem with a value that starts with a token of another kind than the expected one. -/
def wrongType {α : Type} (expected : String) : Reader α
  | [] => .error .truncated
  | .null :: _ => .error (.mismatch (.invalidType .null expected))
  | .bool b :: _ => .error (.mismatch (.invalidType (.bool b) expected))
  | .number l :: _ =>
    match l.value with
    | some n => .error (.mismatch (.invalidType (.num n) expected))
    | none => .error .malformed
  | .string (some s) :: _ => .error (.mismatch (.invalidType (.str s) expected))
  | .beginArray :: _ => .error (.mismatch (.invalidType .sequence expected))
  | .beginObject :: _ => .error (.mismatch (.invalidType .map expected))
  | _ => .error .malformed

def colon : Reader Unit
  | .colon :: rest => .ok ((), rest)
  | tokens => outOfPlace tokens

/-! ## Items and members -/

/-- Items up to the closing bracket; `first` when none was read yet. -/
def items {α : Type} (item : Reader α) : Nat → Bool → Reader (List α)
  | 0, _, _ => .error .truncated
  | _ + 1, _, .endArray :: rest => .ok ([], rest)
  | n + 1, true, tokens => do
    let (a, rest) ← item tokens
    let (as, rest) ← items item n false rest
    return (a :: as, rest)
  | _ + 1, false, .comma :: .endArray :: _ => .error .malformed
  | n + 1, false, .comma :: tokens => do
    let (a, rest) ← item tokens
    let (as, rest) ← items item n false rest
    return (a :: as, rest)
  | _ + 1, false, tokens => outOfPlace tokens

/-- Members up to the closing brace, each folded into what was gathered from those before it. -/
def members {σ : Type} (member : σ → String → Reader σ) : Nat → Bool → σ → Reader σ
  | 0, _, _, _ => .error .truncated
  | _ + 1, _, s, .endObject :: rest => .ok (s, rest)
  | n + 1, true, s, .string (some name) :: rest => do
    let (s, rest) ← member s name rest
    members member n false s rest
  | n + 1, false, s, .comma :: .string (some name) :: rest => do
    let (s, rest) ← member s name rest
    members member n false s rest
  | _ + 1, false, _, .comma :: tokens => outOfPlace tokens
  | _ + 1, _, _, tokens => outOfPlace tokens

def list {α : Type} (expected : String) (depth : Nat) (item : Nat → Reader α) : Reader (List α)
  | .beginArray :: rest =>
    match depth with
    | 0 => .error .malformed
    | d + 1 => items (item d) (rest.length + 1) true rest
  | tokens => wrongType expected tokens

/-! ## Plain values -/

def string (expected : String) : Reader String
  | .string (some s) :: rest => .ok (s, rest)
  | tokens => wrongType expected tokens

def plainText : Reader String := string "a string"

def optional {α : Type} (read : Reader α) : Reader (Option α)
  | .null :: rest => .ok (none, rest)
  | tokens => (read tokens).map fun (a, rest) => (some a, rest)

/-- Any value; in an object a later member replaces an earlier one of the same name. -/
def value : Nat → Reader Json
  | _, [] => .error .truncated
  | _, .null :: rest => .ok (.null, rest)
  | _, .bool b :: rest => .ok (.bool b, rest)
  | _, .number l :: rest =>
    match l.value with
    | some n => .ok (.num n, rest)
    | none => .error .malformed
  | _, .string (some s) :: rest => .ok (.str s, rest)
  | d + 1, .beginArray :: rest => do
    let (js, rest) ← items (value d) (rest.length + 1) true rest
    return (.arr js, rest)
  | d + 1, .beginObject :: rest => do
    let (ms, rest) ← members (fun table name tokens => do
      let ((), rest) ← colon tokens
      let (j, rest) ← value d rest
      return (Table.insert name j table, rest)) (rest.length + 1) true [] rest
    return (.obj ms, rest)
  | _, _ => .error .malformed

def table (depth : Nat) : Reader Table
  | .beginObject :: rest =>
    match depth with
    | 0 => .error .malformed
    | d + 1 =>
      members (fun table name tokens => do
        let ((), rest) ← colon tokens
        let (j, rest) ← value d rest
        return (Table.insert name j table, rest)) (rest.length + 1) true [] rest
  | tokens => wrongType "a map" tokens

/-! ## Skipping -/

/-- Which container a skipped value is in. -/
inductive Frame
  | array
  | object
deriving DecidableEq, Repr

/-- What may come next in a skipped value. -/
inductive Expecting
  | value
  | itemOrEnd
  | nameOrEnd
  | name
  | colon
  | next
deriving DecidableEq, Repr

/--
Passes over one value of any depth, whose numbers may be too large and whose texts may be broken.
The stack holds the open containers.
-/
def skip : List Frame → Expecting → List Token → Except ReadError (List Token)
  | [], .next, tokens => .ok tokens
  | _, _, [] => .error .truncated
  | .array :: stack, .itemOrEnd, .endArray :: rest => skip stack .next rest
  | .object :: stack, .nameOrEnd, .endObject :: rest => skip stack .next rest
  | stack, .nameOrEnd, .string _ :: rest => skip stack .colon rest
  | stack, .name, .string _ :: rest => skip stack .colon rest
  | stack, .colon, .colon :: rest => skip stack .value rest
  | .array :: stack, .next, .comma :: rest => skip (.array :: stack) .value rest
  | .array :: stack, .next, .endArray :: rest => skip stack .next rest
  | .object :: stack, .next, .comma :: rest => skip (.object :: stack) .name rest
  | .object :: stack, .next, .endObject :: rest => skip stack .next rest
  | stack, e, token :: rest =>
    if e = .value ∨ e = .itemOrEnd then
      match token with
      | .null | .bool _ | .number _ | .string _ => skip stack .next rest
      | .beginArray => skip (.array :: stack) .itemOrEnd rest
      | .beginObject => skip (.object :: stack) .nameOrEnd rest
      | _ => .error .malformed
    else .error .malformed

def skipMember : Reader Unit := fun tokens => do
  let ((), rest) ← colon tokens
  return ((), ← skip [] .value rest)

/-! ## Records -/

/-- A field of a record: its name, whether it may be absent, and how its value is stored. -/
structure RecordField (σ : Type) where
  name : String
  required : Bool
  read : σ → Reader σ

def RecordField.of {α σ : Type} (name : String) (required : Bool) (read : Reader α) (set : α → σ → σ) :
    RecordField σ :=
  ⟨name, required, fun s tokens => (read tokens).map fun (a, rest) => (set a s, rest)⟩

/-- What is known of a record while it is read. -/
structure Partial (σ : Type) where
  record : σ
  seen : List String

/-- One member of a record; unknown ones are passed over. -/
def recordMember {σ : Type} (fields : List (RecordField σ)) (p : Partial σ) (name : String) :
    Reader (Partial σ) := fun tokens =>
  match fields.find? fun f => f.name == name with
  | some f =>
    if p.seen.contains name then .error (.mismatch (.duplicateField name))
    else do
      let ((), rest) ← colon tokens
      let (record, rest) ← f.read p.record rest
      return (⟨record, name :: p.seen⟩, rest)
  | none => do
    let ((), rest) ← skipMember tokens
    return (p, rest)

/-- The fields of a record in their order, as the items of a list. -/
def recordItems {σ : Type} (expected : String) : Nat → List (RecordField σ) → σ → Reader σ
  | _, [], s, .endArray :: rest => .ok (s, rest)
  | _, [], _, tokens => outOfPlace tokens
  | i, f :: fs, s, .endArray :: rest =>
    if f.required then .error (.mismatch (.invalidLength i expected))
    else recordItems expected (i + 1) fs s (.endArray :: rest)
  | 0, f :: fs, s, tokens => do
    let (s, rest) ← f.read s tokens
    recordItems expected 1 fs s rest
  | _ + 1, _ :: _, _, .comma :: .endArray :: _ => .error .malformed
  | i + 1, f :: fs, s, .comma :: tokens => do
    let (s, rest) ← f.read s tokens
    recordItems expected (i + 2) fs s rest
  | _ + 1, _ :: _, _, tokens => outOfPlace tokens

def elements (n : Nat) : String :=
  toString n ++ (if n = 1 then " element" else " elements")

/--
A record, as an object or as the list of its fields. Of an object with fields missing the first
required one is reported.
-/
def record {σ : Type} (title : String) (depth : Nat) (fields : Nat → List (RecordField σ)) (blank : σ) :
    Reader σ
  | .beginObject :: rest =>
    match depth with
    | 0 => .error .malformed
    | d + 1 => do
      let (p, rest) ← members (recordMember (fields d)) (rest.length + 1) true ⟨blank, []⟩ rest
      match (fields d).find? fun f => f.required && !p.seen.contains f.name with
      | some f => .error (.mismatch (.missingField f.name))
      | none => return (p.record, rest)
  | .beginArray :: rest =>
    match depth with
    | 0 => .error .malformed
    | d + 1 =>
      let expected := "struct " ++ title ++ " with " ++ elements (fields d).length
      recordItems expected 0 (fields d) blank rest
  | tokens => wrongType ("struct " ++ title) tokens

/-! ## Whole texts -/

/-- Reads a text that holds one value and nothing behind it. -/
def readText {α : Type} (read : Nat → Reader α) (text : String) : Except ReadError α :=
  let source := Tokens.ofText text
  match read maxDepth source.tokens with
  | .ok (a, rest) =>
    if rest.isEmpty && source.stop == .complete then .ok a else .error .malformed
  | .error .truncated =>
    .error (if source.stop = .malformed then .malformed else .truncated)
  | .error e => .error e

def parse (text : String) : Except ReadError Json :=
  readText value text

end Workflow.Json
