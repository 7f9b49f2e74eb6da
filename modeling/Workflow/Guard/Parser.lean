import Workflow.Guard.Basic
import Workflow.Guard.Error
import Workflow.Text.Digits

/-!
# Reading guards

`!` binds tighter than `&&` and `&&` tighter than `||`; chains associate to the left. White space may
stand between tokens. Every step takes what it reads from the front of the text and gives the rest.
-/

namespace Workflow.Guard

open Text (isDigit ofDecimal byteLength)

abbrev Parser (α : Type) := List Char → Except GuardError (α × List Char)

/-- The text behind a token at its front, none when it starts with something else. -/
def token? : List Char → List Char → Option (List Char)
  | [], text => some text
  | _ :: _, [] => none
  | t :: token, c :: text => if t = c then token? token text else none

/-! ## Fields -/

def isPathChar (c : Char) : Bool :=
  Text.isAlphanumeric c || c == '_' || c == '.'

def splitDots : List Char → List (List Char)
  | [] => [[]]
  | c :: rest =>
    if c = '.' then [] :: splitDots rest
    else match splitDots rest with
      | [] => [[c]]
      | part :: parts => (c :: part) :: parts

def root? (text : List Char) : Option (Root × List Char) :=
  match token? ['c', 't', 'x', '.'] text with
  | some rest => some (.ctx, rest)
  | none => (token? ['u', 's', 'e', 'r', '.'] text).map fun rest => (.user, rest)

def field : Parser Path := fun text =>
  match root? text with
  | none => .error .expectedField
  | some (root, rest) =>
    let parts := splitDots (rest.takeWhile isPathChar)
    if parts.any List.isEmpty then .error .emptyFieldName
    else .ok (⟨root, parts.map String.ofList⟩, rest.dropWhile isPathChar)

/-! ## Numbers and constants -/

def isNumberChar (c : Char) : Bool := isDigit c || c == '.'

def isNumber (body : List Char) : Bool :=
  body.any isDigit && body.count '.' ≤ 1

/-- The double nearest to a decimal with an optional point. -/
def numberValue (negative : Bool) (body : List Char) : Binary64 :=
  let whole := body.takeWhile isDigit
  let fraction := (body.dropWhile isDigit).drop 1
  .ofRatio negative (ofDecimal (whole ++ fraction)) (Nat.pow 10 fraction.length)

def number : Parser Binary64 := fun text =>
  let text := Text.trimStart text
  let (sign, text) := match text with
    | '-' :: rest => (['-'], rest)
    | _ => ([], text)
  let body := text.takeWhile isNumberChar
  if isNumber body then .ok (numberValue (!sign.isEmpty) body, text.dropWhile isNumberChar)
  else .error (.invalidNumber (String.ofList (sign ++ body)))

/-- A text up to its closing quote; the opening one has been read. -/
def quotedText : Parser String := fun text =>
  match text.dropWhile (· != '"') with
  | [] => .error .unterminatedString
  | _ :: rest => .ok (String.ofList (text.takeWhile (· != '"')), rest)

def constant : Parser Constant := fun text =>
  let text := Text.trimStart text
  match token? ['t', 'r', 'u', 'e'] text with
  | some rest => .ok (.bool true, rest)
  | none =>
  match token? ['f', 'a', 'l', 's', 'e'] text with
  | some rest => .ok (.bool false, rest)
  | none =>
  match token? ['n', 'u', 'l', 'l'] text with
  | some rest => .ok (.null, rest)
  | none =>
  match token? ['"'] text with
  | some rest => (quotedText rest).map fun (s, rest) => (.str s, rest)
  | none => do
    let (x, rest) ← number text
    if x.isInfinite then .error (.numberOutOfRange x.isNegative) else return (.num x, rest)

/-! ## Expressions -/

/-- What follows a field. -/
inductive Operator
  | equals
  | differs
  | compare (op : Comparison)
deriving DecidableEq, Repr

def operator? (text : List Char) : Option (Operator × List Char) :=
  match text with
  | '=' :: '=' :: rest => some (.equals, rest)
  | '!' :: '=' :: rest => some (.differs, rest)
  | '>' :: '=' :: rest => some (.compare .ge, rest)
  | '<' :: '=' :: rest => some (.compare .le, rest)
  | '>' :: rest => some (.compare .gt, rest)
  | '<' :: rest => some (.compare .lt, rest)
  | _ => none

def comparison : Parser Guard := fun text => do
  let (path, rest) ← field text
  let rest := Text.trimStart rest
  match operator? rest with
  | some (.equals, rest) =>
    let (c, rest) ← constant rest
    return (.equals path c, rest)
  | some (.differs, rest) =>
    let (c, rest) ← constant rest
    return (.differs path c, rest)
  | some (.compare op, rest) =>
    let (x, rest) ← number rest
    return (.compare op path x, rest)
  | none => return (.truthy path, rest)

def primary (expression : Parser Guard) : Parser Guard := fun text =>
  match text with
  | '(' :: rest => do
    let (g, rest) ← expression rest
    match Text.trimStart rest with
    | ')' :: rest => return (g, rest)
    | _ => .error .expectedClosing
  | _ => comparison text

def bang? : List Char → Option (List Char)
  | '!' :: '=' :: _ => none
  | '!' :: rest => some rest
  | _ => none

/-- A primary behind any number of `!`, of which the first argument bounds the number. -/
def unary (expression : Parser Guard) : Nat → Parser Guard
  | 0, text => primary expression (Text.trimStart text)
  | n + 1, text =>
    match bang? (Text.trimStart text) with
    | some rest => do
      let (g, rest) ← unary expression n rest
      return (.not g, rest)
    | none => primary expression (Text.trimStart text)

/-- Further operands of a chain, joined to what was read before them. -/
def chain (token : List Char) (join : Guard → Guard → Guard) (operand : Parser Guard) :
    Nat → Guard → Parser Guard
  | 0, left, text => .ok (left, Text.trimStart text)
  | n + 1, left, text =>
    match token? token (Text.trimStart text) with
    | some rest => do
      let (right, rest) ← operand rest
      chain token join operand n (join left right) rest
    | none => .ok (left, Text.trimStart text)

def chained (token : List Char) (join : Guard → Guard → Guard) (operand : Parser Guard) :
    Parser Guard := fun text => do
  let (left, rest) ← operand text
  chain token join operand rest.length left rest

/-- An expression whose parentheses are nested less deep than the first argument. -/
def expression : Nat → Parser Guard
  | 0, _ => .error .expectedField
  | n + 1, text =>
    chained ['|', '|'] .or
      (chained ['&', '&'] .and fun text => unary (expression n) text.length text) text

def ofTrimmed (text : List Char) : Except GuardError Guard := do
  let (g, rest) ← expression (text.length + 1) text
  let rest := Text.trimStart rest
  if rest.isEmpty then return g
  else .error (.unexpectedInput (byteLength text - byteLength rest))

def parse (text : String) : Except GuardError Guard :=
  match Text.trim text.toList with
  | [] => .error .empty
  | c :: rest => ofTrimmed (c :: rest)

end Workflow.Guard
