import Workflow.Yaml.Node
import Workflow.Yaml.Scalar

/-!
# Reading YAML

A text holds one document. In blocks the columns tell what belongs together: the entries of a sequence or
mapping start in one column, what belongs to an entry starts further right. Between brackets columns do
not matter. A key ends on the line where it starts, before a colon, unless a `?` announces it.
-/

namespace Workflow.Yaml

/-- The largest distance in bytes from the start of a key to its colon. -/
def maxKeyLength : Nat := 1024

/-- The place behind the colon of a key that starts at `key` and ends at `c`, on one line. -/
def behindColon? (brackets : Bool) (key c : Cursor) : Option Cursor :=
  let c := c.next brackets
  match c.rest with
  | ':' :: rest =>
    if (brackets || endsWord rest) && c.line == key.line && c.offset ≤ key.offset + maxKeyLength then
      some (c.skip 1).inside
    else none
  | _ => none

mutual

def atom : Nat → Bool → Nat → Cursor → Option (Node × Cursor)
  | 0, _, _, _ => none
  | n + 1, brackets, floor, c =>
    match c.rest with
    | '"' :: _ => (quotedScalar (doubleWord c.rest.length) c).map fun (s, c) => (.quoted s, c)
    | '\'' :: _ => (quotedScalar singleWord c).map fun (s, c) => (.quoted s, c)
    | '[' :: _ => (flowItems n floor (c.skip 1)).map fun (l, c) => (.sequence l, c)
    | '\x7b' :: _ => (flowMembers n floor (c.skip 1)).map fun (l, c) => (.mapping l, c)
    | _ =>
      if startsPlain brackets c.rest then
        (plainScalar brackets floor c).map fun (s, c) => (.plain s, c)
      else none

/-- The value behind a key in brackets, absent before a comma or the closing bracket. -/
def flowValue : Nat → Char → Nat → Cursor → Option (Node × Cursor)
  | 0, _, _, _ => none
  | n + 1, closing, floor, c =>
    let c := c.next true
    if c.isAtMark then none
    else if c.rest.head? = some ',' ∨ c.rest.head? = some closing then some (.absent, c)
    else atom n true floor c

/--
A key behind its mark, with its value; each of them may be absent. In a sequence an absent key takes the
comma or colon behind it along.
-/
def flowMember : Nat → Char → Nat → Cursor → Option ((Node × Node) × Cursor)
  | 0, _, _, _ => none
  | n + 1, closing, floor, c => do
    let c := (c.skip 1).next true
    if c.isAtMark then none
    let (key, c) ←
      if c.rest.head? = some ',' ∨ c.rest.head? = some ':' then
        some (Node.absent, if closing = ']' then (c.skip 1).inside else c)
      else if closing = '\x7d' ∧ c.rest.head? = some closing then some (.absent, c)
      else atom n true floor c
    let c := c.next true
    match c.rest with
    | ':' :: _ =>
      let (value, c) ← flowValue n closing floor (c.skip 1).inside
      return ((key, value), c)
    | _ => return ((key, .absent), c)

/-- Items up to the closing bracket; an item may be a single key with its value. -/
def flowItems : Nat → Nat → Cursor → Option (List Node × Cursor)
  | 0, _, _ => none
  | n + 1, floor, c => do
    let c := c.next true
    if c.isAtMark then none
    if c.rest.head? = some ']' then return ([], (c.skip 1).inside)
    let (item, next) ←
      if c.rest.head? = some '?' then
        (flowMember n ']' floor c).map fun (m, c) => (Node.mapping [m], c)
      else do
        let (node, next) ← atom n true floor c
        match behindColon? true c next with
        | some next => (flowValue n ']' floor next).map fun (v, c) => (.mapping [(node, v)], c)
        | none => some (node, next)
    let next := next.next true
    match next.rest with
    | ',' :: _ =>
      let (items, next) ← flowItems n floor (next.skip 1)
      return (item :: items, next)
    | ']' :: _ => return ([item], (next.skip 1).inside)
    | _ => none

/-- Members up to the closing brace; a key may stand alone. -/
def flowMembers : Nat → Nat → Cursor → Option (List (Node × Node) × Cursor)
  | 0, _, _ => none
  | n + 1, floor, c => do
    let c := c.next true
    if c.isAtMark then none
    if c.rest.head? = some '\x7d' then return ([], (c.skip 1).inside)
    let (member, next) ←
      if c.rest.head? = some '?' then flowMember n '\x7d' floor c
      else do
        let (key, next) ← atom n true floor c
        match behindColon? true c next with
        | some next => (flowValue n '\x7d' floor next).map fun (v, c) => ((key, v), c)
        | none => some ((key, .absent), next)
    let next := next.next true
    match next.rest with
    | ',' :: _ =>
      let (members, next) ← flowMembers n floor (next.skip 1)
      return (member :: members, next)
    | '\x7d' :: _ => return ([member], (next.skip 1).inside)
    | _ => none

/--
What stands at the column `floor` or behind it, absent if nothing does. Below the key of a mapping a
sequence may start in the column of the key.
-/
def blockValue : Nat → Nat → Bool → Cursor → Option (Node × Cursor)
  | 0, _, _, _ => none
  | n + 1, floor, behindKey, c =>
    let c := c.next false
    if c.isOver then some (.absent, c)
    else if c.column < floor then
      if behindKey && c.isItem && c.column + 1 == floor then
        (blockItems n c.column true c).map fun (l, c) => (.sequence l, c)
      else some (.absent, c)
    else if c.isItem then
      if c.fresh then (blockItems n c.column false c).map fun (l, c) => (.sequence l, c) else none
    else if c.isKey then
      if c.fresh then do
        let (member, next) ← blockMember n c.column c
        (blockMembers n c.column member next).map fun (l, c) => (.mapping l, c)
      else none
    else do
      let (node, next) ← atom n false floor c
      match behindColon? false c next with
      | some next =>
        if c.fresh then do
          let (value, next) ← blockValue n (c.column + 1) true next
          (blockMembers n c.column (node, value) next).map fun (l, c) => (.mapping l, c)
        else none
      | none => return (node, next)

/--
The items of a sequence whose marks stand in one column, the first of them here. A sequence in the
column of a key may be followed there by the next key.
-/
def blockItems : Nat → Nat → Bool → Cursor → Option (List Node × Cursor)
  | 0, _, _, _ => none
  | n + 1, column, behindKey, c => do
    let (item, c) ← blockValue n (column + 1) false c.behindMark
    let c := c.next false
    if c.isOver || c.column < column then return ([item], c)
    if column < c.column || !c.fresh then none
    if c.isItem then
      let (items, c) ← blockItems n column behindKey c
      return (item :: items, c)
    if behindKey then return ([item], c) else none

/-- A key in the column of its mapping, with its value; behind their marks both may be absent. -/
def blockMember : Nat → Nat → Cursor → Option ((Node × Node) × Cursor)
  | 0, _, _ => none
  | n + 1, column, c => do
    if c.isKey then
      let (key, c) ← blockValue n (column + 1) true c.behindMark
      let c := c.next false
      if c.isValue && c.fresh && c.column == column then
        let (value, c) ← blockValue n (column + 1) true c.behindMark
        return ((key, value), c)
      return ((key, .absent), c)
    let (key, behind) ← atom n false (column + 1) c
    let (value, c) ← blockValue n (column + 1) true (← behindColon? false c behind)
    return ((key, value), c)

/-- The members of a mapping whose keys start in one column; the cursor stands behind the first one. -/
def blockMembers : Nat → Nat → Node × Node → Cursor → Option (List (Node × Node) × Cursor)
  | 0, _, _, _ => none
  | n + 1, column, member, c => do
    let c := c.next false
    if c.isOver || c.column < column then return ([member], c)
    if column < c.column || !c.fresh then none
    let (next, c) ← blockMember n column c
    let (members, c) ← blockMembers n column next c
    return (member :: members, c)

end

/-! ## Documents -/

/-- Whether nothing is left but marks of the end of the document. -/
def isFinished : Nat → Cursor → Bool
  | 0, _ => false
  | n + 1, c =>
    let c := c.next false
    c.rest.isEmpty || (c.isEnd && isFinished n (c.skip 3).inside)

/-- The content of the one document of a text; each step of the reader takes a character or more. -/
def Node.ofText? (text : String) : Option Node := do
  let chars := text.toList
  if !chars.all isAllowed then none
  let steps := 4 * chars.length + 16
  let c := (Cursor.start chars).next false
  if c.isEnd then none
  let (node, c) ← blockValue steps 0 false (if c.isStart then (c.skip 3).inside else c)
  if isFinished steps c then return node else none

end Workflow.Yaml
