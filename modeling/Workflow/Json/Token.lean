import Workflow.Json.Literal

/-!
# Tokens of a JSON text

A text is cut into tokens from left to right, up to its end or to the first place that starts no token.
What a token stands for is settled by its reader: a text with an unpaired surrogate escape is still
one token (`string none`), so that a value nobody looks at may hold one.
-/

namespace Workflow.Json

open Text

inductive Token
  | beginObject
  | endObject
  | beginArray
  | endArray
  | colon
  | comma
  | null
  | bool (value : Bool)
  | number (literal : Literal)
  | string (content : Option String)
deriving DecidableEq, Repr

/-- Why there is no further token: the text is over, over inside a token, or holds something else. -/
inductive Stop
  | complete
  | truncated
  | malformed
deriving DecidableEq, Repr

/-- A text cut into tokens. -/
structure Tokens where
  tokens : List Token
  stop : Stop
deriving DecidableEq, Repr

/-! ## Texts -/

/-- A character of a text value, or the number behind an escape of four digits. -/
inductive Piece
  | char (c : Char)
  | unit (n : Nat)
deriving DecidableEq, Repr

/-- The pieces of a text value and what comes after its closing quote. -/
abbrev Scanned := List Piece × Except Stop (List Char)

def hexUnit? (a b c d : Char) : Option Nat := do
  return ((← hexValue? a) * 16 + (← hexValue? b)) * 256 + (← hexValue? c) * 16 + (← hexValue? d)

def unescape? : Char → Option Char
  | '"' => some '"'
  | '\\' => some '\\'
  | '/' => some '/'
  | 'b' => some (Char.ofNat 8)
  | 'f' => some (Char.ofNat 12)
  | 'n' => some '\n'
  | 'r' => some '\r'
  | 't' => some '\t'
  | _ => none

def addPiece (p : Piece) (s : Scanned) : Scanned :=
  (p :: s.1, s.2)

def scanString : List Char → Scanned
  | [] => ([], .error .truncated)
  | '"' :: rest => ([], .ok rest)
  | '\\' :: 'u' :: a :: b :: c :: d :: rest =>
    match hexUnit? a b c d with
    | some n => addPiece (.unit n) (scanString rest)
    | none => ([], .error .malformed)
  | '\\' :: 'u' :: short => ([], .error (if byteLength short < 4 then .truncated else .malformed))
  | ['\\'] => ([], .error .truncated)
  | '\\' :: c :: rest =>
    match unescape? c with
    | some e => addPiece (.char e) (scanString rest)
    | none => ([], .error .malformed)
  | c :: rest =>
    if c.toNat < 0x20 then ([], .error .malformed) else addPiece (.char c) (scanString rest)

def isHighSurrogate (n : Nat) : Bool := 0xd800 ≤ n && n < 0xdc00

def isLowSurrogate (n : Nat) : Bool := 0xdc00 ≤ n && n < 0xe000

/-- The text of the pieces, none when a surrogate stands without its partner. -/
def joinPieces : List Piece → Option (List Char)
  | [] => some []
  | .char c :: rest => (joinPieces rest).map (c :: ·)
  | .unit n :: rest =>
    if isHighSurrogate n then
      match rest with
      | .unit m :: rest =>
        if isLowSurrogate m then
          (joinPieces rest).map (Char.ofNat (0x10000 + (n - 0xd800) * 0x400 + (m - 0xdc00)) :: ·)
        else none
      | _ => none
    else if isLowSurrogate n then none
    else (joinPieces rest).map (Char.ofNat n :: ·)

/-- The pieces without a high surrogate at the very end, whose partner may still have come. -/
def settledPieces (pieces : List Piece) : List Piece :=
  match pieces.getLast? with
  | some (.unit n) => if isHighSurrogate n then pieces.dropLast else pieces
  | _ => pieces

/-! ## Numbers -/

def scanDigits (text : List Char) : Except Stop (List Nat × List Char) :=
  match text.takeWhile isDigit, text.dropWhile isDigit with
  | [], [] => .error .truncated
  | [], _ => .error .malformed
  | digits, rest => .ok (digits.map digitValue, rest)

def scanWhole (text : List Char) : Except Stop (List Nat × List Char) := do
  let (digits, rest) ← scanDigits text
  match digits with
  | 0 :: _ :: _ => .error .malformed
  | _ => return (digits, rest)

def scanFraction (text : List Char) : Except Stop (Option (List Nat) × List Char) :=
  match text with
  | '.' :: rest => do
    let (digits, rest) ← scanDigits rest
    return (some digits, rest)
  | _ => return (none, text)

def scanExponent (text : List Char) : Except Stop (Option (Bool × List Nat) × List Char) :=
  match text with
  | c :: rest =>
    if c = 'e' ∨ c = 'E' then do
      let (negative, rest) := match rest with
        | '-' :: rest => (true, rest)
        | '+' :: rest => (false, rest)
        | _ => (false, rest)
      let (digits, rest) ← scanDigits rest
      return (some (negative, digits), rest)
    else return (none, text)
  | [] => return (none, text)

def scanNumber (text : List Char) : Except Stop (Literal × List Char) := do
  let (negative, rest) := match text with
    | '-' :: rest => (true, rest)
    | _ => (false, text)
  let (whole, rest) ← scanWhole rest
  let (fraction, rest) ← scanFraction rest
  let (exponent, rest) ← scanExponent rest
  return (⟨negative, whole, fraction, exponent⟩, rest)

/-! ## Tokens -/

def isSpace (c : Char) : Bool :=
  c == ' ' || c == '\n' || c == '\t' || c == '\r'

def scanWord (token : Token) : List Char → List Char → Except Stop (Token × List Char)
  | [], text => .ok (token, text)
  | _ :: _, [] => .error .truncated
  | w :: word, c :: text => if w = c then scanWord token word text else .error .malformed

/-- One token at the start of a text that starts with no blank. -/
def scanToken (c : Char) (rest : List Char) : Except Stop (Token × List Char) :=
  match c with
  | '\x7b' => .ok (.beginObject, rest)
  | '\x7d' => .ok (.endObject, rest)
  | '[' => .ok (.beginArray, rest)
  | ']' => .ok (.endArray, rest)
  | ':' => .ok (.colon, rest)
  | ',' => .ok (.comma, rest)
  | 'n' => scanWord .null ['u', 'l', 'l'] rest
  | 't' => scanWord (.bool true) ['r', 'u', 'e'] rest
  | 'f' => scanWord (.bool false) ['a', 'l', 's', 'e'] rest
  | _ =>
    if c == '-' || isDigit c then (scanNumber (c :: rest)).map fun (l, rest) => (.number l, rest)
    else .error .malformed

/-- A text value cut short by the end of the text is a token when it is broken already. -/
def brokenString (pieces : List Piece) : List Token :=
  if (joinPieces (settledPieces pieces)).isNone then [.string none] else []

def scan : Nat → List Char → Tokens
  | 0, _ => ⟨[], .complete⟩
  | n + 1, text =>
    match text.dropWhile isSpace with
    | [] => ⟨[], .complete⟩
    | '"' :: rest =>
      match scanString rest with
      | (pieces, .ok rest) =>
        let next := scan n rest
        { next with tokens := .string ((joinPieces pieces).map String.ofList) :: next.tokens }
      | (pieces, .error stop) => ⟨brokenString pieces, stop⟩
    | c :: rest =>
      match scanToken c rest with
      | .ok (token, rest) =>
        let next := scan n rest
        { next with tokens := token :: next.tokens }
      | .error stop => ⟨[], stop⟩

def Tokens.ofText (text : String) : Tokens :=
  let chars := text.toList
  scan (chars.length + 1) chars

end Workflow.Json
