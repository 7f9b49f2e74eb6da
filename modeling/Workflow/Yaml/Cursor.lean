import Workflow.Text.Digits

/-!
# Cursors

A place in a YAML text, and how the reader gets from one token to the next over blanks, line breaks and
comments.
-/

namespace Workflow.Yaml

structure Cursor where
  /-- The text from here on. -/
  rest : List Char
  column : Nat
  line : Nat
  /-- The number of bytes before this place. -/
  offset : Nat
  /-- Whether a block may start here: only indentation and marks of entries stand before on the line. -/
  fresh : Bool
deriving Repr

/-! ## Characters -/

def isAllowed (c : Char) : Bool :=
  let n := c.toNat
  n == 0x9 || n == 0xa || n == 0xd || (0x20 ≤ n && n ≤ 0x7e) || n == 0x85 ||
    (0xa0 ≤ n && n ≤ 0xfffd) || 0x10000 ≤ n

/-- The ends of lines, once the others are replaced by line feeds. -/
def isBreak (c : Char) : Bool :=
  c == '\n' || c == '\u2028' || c == '\u2029'

def isBlank (c : Char) : Bool :=
  c == ' ' || c == '\t'

/-- Whether a text is over or goes on with a blank or a line break. -/
def endsWord : List Char → Bool
  | [] => true
  | c :: _ => isBlank c || isBreak c

/-- The text with a line feed for every carriage return, both of them together, and next line. -/
def unifyBreaks : List Char → List Char
  | [] => []
  | '\r' :: '\n' :: rest => '\n' :: unifyBreaks rest
  | '\r' :: rest => '\n' :: unifyBreaks rest
  | '\u0085' :: rest => '\n' :: unifyBreaks rest
  | c :: rest => c :: unifyBreaks rest

namespace Cursor

def start (text : List Char) : Cursor :=
  ⟨unifyBreaks text, 0, 0, 0, true⟩

def skip (c : Cursor) (n : Nat) : Cursor :=
  { c with
    rest := c.rest.drop n
    column := c.column + n
    offset := c.offset + Text.byteLength (c.rest.take n) }

def nextLine (c : Cursor) : Cursor :=
  { c.skip 1 with column := 0, line := c.line + 1 }

def inside (c : Cursor) : Cursor :=
  { c with fresh := false }

/-! ## Between tokens -/

/--
The next token. Inside brackets tabs are blanks; elsewhere they are none where a block may start, which
it may at the start of a line. A byte order mark that starts a line is passed over and takes a column.
-/
def next (brackets : Bool) (c : Cursor) : Cursor :=
  go c.rest c
where
  go : List Char → Cursor → Cursor
    | [], c => c
    | ' ' :: rest, c => go rest (c.skip 1)
    | '\t' :: rest, c => if brackets || !c.fresh then go rest (c.skip 1) else c
    | '#' :: rest, c => comment rest (c.skip 1)
    | '\ufeff' :: rest, c => if c.column == 0 then go rest (c.skip 1) else c
    | b :: rest, c =>
      if isBreak b then go rest { c.nextLine with fresh := c.fresh || !brackets } else c
  comment : List Char → Cursor → Cursor
    | [], c => c
    | b :: rest, c =>
      if isBreak b then go rest { c.nextLine with fresh := c.fresh || !brackets }
      else comment rest (c.skip 1)

/-! ## Marks of documents -/

/-- Whether a line starts here with three of the character and a blank. -/
def isMark (mark : Char) (c : Cursor) : Bool :=
  c.column == 0 && c.rest.take 3 == [mark, mark, mark] && endsWord (c.rest.drop 3)

def isStart (c : Cursor) : Bool := c.isMark '-'

def isEnd (c : Cursor) : Bool := c.isMark '.'

def isOver (c : Cursor) : Bool :=
  c.rest.isEmpty || c.isStart || c.isEnd

/-! ## Marks of entries -/

def isWord (mark : Char) (c : Cursor) : Bool :=
  match c.rest with
  | m :: rest => m == mark && endsWord rest
  | [] => false

def isItem (c : Cursor) : Bool := c.isWord '-'

/-- Whether a key of a block mapping starts here that its own mark announces. -/
def isKey (c : Cursor) : Bool := c.isWord '?'

def isValue (c : Cursor) : Bool := c.isWord ':'

/-- The place behind such a mark, where another block may start. -/
def behindMark (c : Cursor) : Cursor :=
  { c.skip 1 with fresh := true }

end Cursor

end Workflow.Yaml
