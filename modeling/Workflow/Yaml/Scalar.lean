import Workflow.Text.Digits
import Workflow.Yaml.Cursor

/-!
# YAML scalars

A scalar is made of words with gaps between them. A gap within a line stands as it is; of a gap that
crosses lines only the line breaks count: a single one is a blank, of several the first is dropped.
-/

namespace Workflow.Yaml

/-! ## Gaps -/

/-- What stands between two words. -/
inductive Gap
  | blanks (text : List Char)
  /-- The first line break, none when it was escaped, and those behind it. -/
  | breaks (first : Option Char) (further : List Char)
deriving DecidableEq, Repr

namespace Gap

def text : Gap → List Char
  | blanks text => text
  | breaks none further => further
  | breaks (some '\n') [] => [' ']
  | breaks (some '\n') further => further
  | breaks (some b) further => b :: further

def addBreak (b : Char) : Gap → Gap
  | blanks _ => breaks (some b) []
  | breaks first further => breaks first (further ++ [b])

def crossesLines : Gap → Bool
  | blanks _ => false
  | breaks .. => true

/--
Reads on up to the next word; the first argument is the text at the cursor. Behind a line break no tab
may stand left of the column `floor`.
-/
def read (floor : Nat) : List Char → Gap → Cursor → Option (Gap × Cursor)
  | [], g, c => some (g, c)
  | b :: rest, g, c =>
    if isBlank b then
      match g with
      | blanks text => read floor rest (blanks (text ++ [b])) (c.skip 1)
      | breaks .. => if b = '\t' ∧ c.column < floor then none else read floor rest g (c.skip 1)
    else if isBreak b then read floor rest (g.addBreak b) c.nextLine
    else some (g, c)

end Gap

/-- Whether a line starts here with the mark of a document. -/
def Cursor.isAtMark (c : Cursor) : Bool :=
  c.isStart || c.isEnd

/-! ## Plain scalars -/

/-- The characters that structure the inside of brackets. -/
def isFlowIndicator (c : Char) : Bool :=
  c == ',' || c == '[' || c == ']' || c == '\x7b' || c == '\x7d'

def isIndicator (c : Char) : Bool :=
  isFlowIndicator c || c == '#' || c == '&' || c == '*' || c == '!' || c == '|' || c == '>' ||
    c == '\'' || c == '"' || c == '%' || c == '@' || c == '\x60'

def startsPlain (brackets : Bool) : List Char → Bool
  | [] => false
  | '-' :: rest => !endsWord rest
  | '?' :: rest | ':' :: rest => !brackets && !endsWord rest
  | c :: _ => !isBlank c && !isBreak c && !isIndicator c

def endsPlain (brackets : Bool) : List Char → Bool
  | [] => true
  | ':' :: rest => endsWord rest
  | c :: _ => isBlank c || isBreak c || (brackets && isFlowIndicator c)

def isStrayColon : List Char → Bool
  | ':' :: c :: _ => isFlowIndicator c || c == '?'
  | _ => false

def plainWord (brackets : Bool) : List Char → Option (List Char)
  | [] => some []
  | c :: rest =>
    if brackets && isStrayColon (c :: rest) then none
    else if endsPlain brackets (c :: rest) then some []
    else (plainWord brackets rest).map (c :: ·)

def Cursor.behind (c : Cursor) (g : Gap) : Cursor :=
  { c with fresh := g.crossesLines }

/-- A plain scalar from one of its gaps on, in at most the given number of words. -/
def plainFrom (brackets : Bool) (floor : Nat) : Nat → Gap → Cursor → Option (List Char × Cursor)
  | 0, _, _ => none
  | n + 1, g, c =>
    if c.isAtMark || c.rest.head? == some '#' then some ([], c.behind g)
    else do
      let word ← plainWord brackets c.rest
      if word.isEmpty then return ([], c.behind g)
      let (gap, next) ← Gap.read floor (c.rest.drop word.length) (.blanks []) (c.skip word.length)
      if !brackets && next.column < floor then return (g.text ++ word, next.behind gap)
      let (more, next) ← plainFrom brackets floor n gap next
      return (g.text ++ word ++ more, next)

/-- A plain scalar whose later lines start at the column `floor` or behind it. -/
def plainScalar (brackets : Bool) (floor : Nat) (c : Cursor) : Option (String × Cursor) := do
  let (text, next) ← plainFrom brackets floor (c.rest.length + 1) (.blanks []) c
  return (String.ofList text, next)

/-! ## Scalars in quotes -/

/-- How a word in quotes ends. -/
inductive WordEnd
  | gap
  | escapedBreak
  | quote
deriving DecidableEq, Repr

/-- A word in quotes: what it stands for, how long it is and how it ends. -/
structure QuotedWord where
  text : List Char
  length : Nat
  ending : WordEnd
deriving DecidableEq, Repr

/-- The word with one more character before it, which takes `n` characters. -/
def QuotedWord.cons (c : Char) (n : Nat) (w : QuotedWord) : QuotedWord :=
  { w with text := c :: w.text, length := n + w.length }

def singleWord : List Char → Option QuotedWord
  | '\'' :: '\'' :: rest => (singleWord rest).map (.cons '\'' 2)
  | '\'' :: _ => some ⟨[], 0, .quote⟩
  | [] => some ⟨[], 0, .gap⟩
  | c :: rest =>
    if isBlank c || isBreak c then some ⟨[], 0, .gap⟩ else (singleWord rest).map (.cons c 1)

def escaped? : Char → Option Char
  | '0' => some (Char.ofNat 0)
  | 'a' => some (Char.ofNat 7)
  | 'b' => some (Char.ofNat 8)
  | 't' | '\t' => some '\t'
  | 'n' => some '\n'
  | 'v' => some (Char.ofNat 11)
  | 'f' => some (Char.ofNat 12)
  | 'r' => some '\r'
  | 'e' => some (Char.ofNat 27)
  | ' ' => some ' '
  | '"' => some '"'
  | '/' => some '/'
  | '\\' => some '\\'
  | 'N' => some '\u0085'
  | '_' => some '\u00a0'
  | 'L' => some '\u2028'
  | 'P' => some '\u2029'
  | _ => none

/-- How many digits follow the letter of an escape by code point. -/
def codeLength? : Char → Option Nat
  | 'x' => some 2
  | 'u' => some 4
  | 'U' => some 8
  | _ => none

def codePoint? (n : Nat) (text : List Char) : Option Char := do
  let code ← Text.natural? 16 (text.take n)
  if n ≤ text.length ∧ code.isValidChar then return Char.ofNat code else none

/-- The character behind a backslash and the number of characters that it takes. -/
def escape? : List Char → Option (Char × Nat)
  | [] => none
  | c :: rest =>
    match codeLength? c with
    | some n => (codePoint? n rest).map fun e => (e, n + 1)
    | none => (escaped? c).map fun e => (e, 1)

/-- Between double quotes a backslash escapes; the first argument bounds the length. -/
def doubleWord : Nat → List Char → Option QuotedWord
  | 0, _ => none
  | _ + 1, [] => some ⟨[], 0, .gap⟩
  | _ + 1, '"' :: _ => some ⟨[], 0, .quote⟩
  | n + 1, '\\' :: rest =>
    if rest.head?.any isBreak then some ⟨[], 0, .escapedBreak⟩
    else do
      let (c, length) ← escape? rest
      return (← doubleWord n (rest.drop length)).cons c (length + 1)
  | n + 1, c :: rest =>
    if isBlank c || isBreak c then some ⟨[], 0, .gap⟩ else (doubleWord n rest).map (.cons c 1)

/-- A scalar in quotes from one of its words on, in at most the given number of words. -/
def quotedFrom (word : List Char → Option QuotedWord) : Nat → Cursor → Option (List Char × Cursor)
  | 0, _ => none
  | n + 1, c => do
    if c.isAtMark || c.rest.isEmpty then none
    let w ← word c.rest
    let c := c.skip w.length
    let (gap, c) ← match w.ending with
      | .quote => return (w.text, (c.skip 1).inside)
      | .escapedBreak =>
        let c := (c.skip 1).nextLine
        Gap.read 0 c.rest (.breaks none []) c
      | .gap => Gap.read 0 c.rest (.blanks []) c
    let (more, c) ← quotedFrom word n c
    return (w.text ++ gap.text ++ more, c)

/-- A scalar in quotes, of which the cursor stands at the opening one. -/
def quotedScalar (word : List Char → Option QuotedWord) (c : Cursor) : Option (String × Cursor) := do
  let (text, next) ← quotedFrom word (c.rest.length + 1) (c.skip 1)
  return (String.ofList text, next)

end Workflow.Yaml
