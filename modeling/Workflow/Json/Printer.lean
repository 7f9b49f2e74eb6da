import Workflow.Json.Basic
import Workflow.Number.Layout
import Workflow.Text.Hex

/-!
# Writing JSON

Values without blanks between tokens. In a text the quote, the backslash and the controls below the
blank are escaped, all else stands as it is.
-/

namespace Workflow

namespace Json

def escape (c : Char) : List Char :=
  if c = '"' then ['\\', '"']
  else if c = '\\' then ['\\', '\\']
  else if c = '\n' then ['\\', 'n']
  else if c = '\r' then ['\\', 'r']
  else if c = '\t' then ['\\', 't']
  else if c.toNat = 8 then ['\\', 'b']
  else if c.toNat = 12 then ['\\', 'f']
  else if c.toNat < 32 then
    ['\\', 'u', '0', '0', Text.hexDigit (c.toNat / 16), Text.hexDigit (c.toNat % 16)]
  else [c]

def quote (s : String) : String :=
  String.ofList ('"' :: s.toList.flatMap escape ++ ['"'])

end Json

def Number.text : Number → String
  | .int n => toString n
  | .float x => x.written

namespace Json

mutual

def text : Json → String
  | .null => "null"
  | .bool b => if b then "true" else "false"
  | .num n => n.text
  | .str s => quote s
  | .arr items => "[" ++ itemsText items ++ "]"
  | .obj members => "\x7b" ++ membersText members ++ "\x7d"

def itemsText : List Json → String
  | [] => ""
  | [j] => text j
  | j :: js => text j ++ "," ++ itemsText js

def membersText : List (String × Json) → String
  | [] => ""
  | [(name, j)] => quote name ++ ":" ++ text j
  | (name, j) :: ms => quote name ++ ":" ++ text j ++ "," ++ membersText ms

end

end Json

end Workflow
