import Workflow.Json.Printer
import Workflow.Json.Token

/-!
# The tokens of a written value

A value without numbers is written as a text that is cut into the tokens of this value, whatever follows it.
-/

namespace Workflow.Json

/-! ## Values as tokens -/

mutual

/-- The tokens of a value. What has numbers in it is left to others. -/
def tokens : Json → List Token
  | .null => [.null]
  | .bool b => [.bool b]
  | .num _ => []
  | .str s => [.string (some s)]
  | .arr items => .beginArray :: (itemsTokens items ++ [.endArray])
  | .obj members => .beginObject :: (membersTokens members ++ [.endObject])

def itemsTokens : List Json → List Token
  | [] => []
  | [j] => tokens j
  | j :: js => tokens j ++ .comma :: itemsTokens js

def membersTokens : List (String × Json) → List Token
  | [] => []
  | [(name, j)] => .string (some name) :: .colon :: tokens j
  | (name, j) :: ms => .string (some name) :: .colon :: (tokens j ++ .comma :: membersTokens ms)

end

mutual

/-- There is no number in the value. -/
def isWordy : Json → Bool
  | .num _ => false
  | .arr items => areWordy items
  | .obj members => haveWordy members
  | _ => true

def areWordy : List Json → Bool
  | [] => true
  | j :: js => isWordy j && areWordy js

def haveWordy : List (String × Json) → Bool
  | [] => true
  | (_, j) :: ms => isWordy j && haveWordy ms

end

/-! ## Texts -/

theorem hexUnit?_low {n : Nat} (h : n < 32) :
    hexUnit? '0' '0' (Text.hexDigit (n / 16)) (Text.hexDigit (n % 16)) = some n := by
  have hall : ∀ n : Fin 32, hexUnit? '0' '0' (Text.hexDigit (n / 16)) (Text.hexDigit (n % 16)) = some n.val := by
    decide
  exact hall ⟨n, h⟩

/-- The number behind an escape is that of a character, and of no surrogate. -/
theorem joinPieces_unit {c : Char} (h : c.toNat < 32) (pieces : List Piece) :
    joinPieces (.unit c.toNat :: pieces) = (joinPieces pieces).map (c :: ·) := by
  have hhigh : isHighSurrogate c.toNat = false := by
    rw [isHighSurrogate, Bool.and_eq_false_iff, decide_eq_false_iff_not]
    omega
  have hlow : isLowSurrogate c.toNat = false := by
    rw [isLowSurrogate, Bool.and_eq_false_iff, decide_eq_false_iff_not]
    omega
  rw [joinPieces.eq_def]
  simp only [hhigh, hlow, Bool.false_eq_true, if_false, Char.ofNat_toNat]

theorem scanString_plain {c : Char} (hquote : c ≠ '"') (hslash : c ≠ '\\') (h : ¬ c.toNat < 32) (rest : List Char) :
    scanString (c :: rest) = addPiece (.char c) (scanString rest) := by
  simp [scanString, hslash, h]

/-- Characters that are escaped by a letter or by themselves. -/
def shorthands : List Char :=
  ['"', '\\', '\n', '\r', '\t', Char.ofNat 8, Char.ofNat 12]

theorem escape_of_not_mem {c : Char} (h : c ∉ shorthands) : escape c = if c.toNat < 32 then
    ['\\', 'u', '0', '0', Text.hexDigit (c.toNat / 16), Text.hexDigit (c.toNat % 16)] else [c] := by
  have hne (n : Nat) (hn : Char.ofNat n ∈ shorthands) : c.toNat ≠ n := fun heq => by
    rw [← heq, Char.ofNat_toNat] at hn
    exact h hn
  have h8 := hne 8 (by decide)
  have h12 := hne 12 (by decide)
  simp only [shorthands, List.mem_cons, not_or] at h
  simp [escape, h, h8, h12]

/-- An escaped character is scanned as a piece that stands for it. -/
theorem scanString_escape (c : Char) (rest : List Char) : ∃ p,
    scanString (escape c ++ rest) = addPiece p (scanString rest) ∧
      ∀ pieces, joinPieces (p :: pieces) = (joinPieces pieces).map (c :: ·) := by
  by_cases hshort : c ∈ shorthands
  · simp only [shorthands, List.mem_cons, List.not_mem_nil, or_false] at hshort
    rcases hshort with rfl | rfl | rfl | rfl | rfl | rfl | rfl <;> exact ⟨.char _, rfl, fun _ => rfl⟩
  · rw [escape_of_not_mem hshort]
    split
    · rename_i hlow
      refine ⟨.unit c.toNat, ?_, joinPieces_unit hlow⟩
      simp [scanString, hexUnit?_low hlow]
    · rename_i hlow
      have hquote : c ≠ '"' := fun h => hshort (h ▸ by decide)
      have hslash : c ≠ '\\' := fun h => hshort (h ▸ by decide)
      exact ⟨.char c, scanString_plain hquote hslash hlow rest, fun _ => rfl⟩

theorem scanString_escaped (cs rest : List Char) : ∃ pieces,
    scanString (cs.flatMap escape ++ '"' :: rest) = (pieces, .ok rest) ∧ joinPieces pieces = some cs := by
  induction cs with
  | nil => exact ⟨[], by simp [scanString], rfl⟩
  | cons c cs ih =>
      obtain ⟨pieces, hscan, hjoin⟩ := ih
      obtain ⟨p, hp, hpieces⟩ := scanString_escape c (cs.flatMap escape ++ '"' :: rest)
      refine ⟨p :: pieces, ?_, ?_⟩
      · rw [List.flatMap_cons, List.append_assoc, hp, hscan]
        rfl
      · rw [hpieces, hjoin]
        rfl

/-! ## Written values -/

def Tokens.after (ts : List Token) (s : Tokens) : Tokens :=
  ⟨ts ++ s.tokens, s.stop⟩

/-- Whatever follows the text, it is cut into these tokens, one at a time. -/
structure Scans (text : List Char) (ts : List Token) : Prop where
  short : ts.length ≤ text.length
  scan : ∀ n rest, Json.scan (n + ts.length) (text ++ rest) = (Json.scan n rest).after ts

namespace Scans

theorem append {text text' : List Char} {ts ts' : List Token} (h : Scans text ts) (h' : Scans text' ts') :
    Scans (text ++ text') (ts ++ ts') where
  short := by
    have := h.short
    have := h'.short
    simp only [List.length_append]
    omega
  scan n rest := by
    rw [List.length_append, Nat.add_comm ts.length, ← Nat.add_assoc, List.append_assoc, h.scan, h'.scan]
    simp only [Tokens.after, List.append_assoc]

theorem nil : Scans [] [] :=
  ⟨Nat.le_refl _, fun _ _ => rfl⟩

theorem quoted (s : String) : Scans (quote s).toList [.string (some s)] where
  short := by simp [quote]
  scan n rest := by
    obtain ⟨pieces, hscan, hjoin⟩ := scanString_escaped s.toList rest
    have htext : (quote s).toList ++ rest = '"' :: (s.toList.flatMap escape ++ '"' :: rest) := by
      simp [quote]
    have hspace : ('"' :: (s.toList.flatMap escape ++ '"' :: rest)).dropWhile isSpace =
        '"' :: (s.toList.flatMap escape ++ '"' :: rest) := rfl
    rw [htext, List.length_singleton, Json.scan, hspace]
    simp only [hscan, hjoin, Option.map_some, String.ofList_toList]
    rfl

/-! One token by itself. -/

theorem null : Scans "null".toList [.null] :=
  ⟨by decide, fun _ _ => rfl⟩

theorem bool (b : Bool) : Scans (if b then "true" else "false").toList [.bool b] := by
  cases b <;> exact ⟨by decide, fun _ _ => rfl⟩

theorem beginArray : Scans "[".toList [.beginArray] :=
  ⟨by decide, fun _ _ => rfl⟩

theorem endArray : Scans "]".toList [.endArray] :=
  ⟨by decide, fun _ _ => rfl⟩

theorem beginObject : Scans "\x7b".toList [.beginObject] :=
  ⟨by decide, fun _ _ => rfl⟩

theorem endObject : Scans "\x7d".toList [.endObject] :=
  ⟨by decide, fun _ _ => rfl⟩

theorem colon : Scans ":".toList [.colon] :=
  ⟨by decide, fun _ _ => rfl⟩

theorem comma : Scans ",".toList [.comma] :=
  ⟨by decide, fun _ _ => rfl⟩

end Scans

mutual

theorem text_scans (j : Json) (h : j.isWordy = true) : Scans (text j).toList (tokens j) := by
  match j with
  | .null => exact .null
  | .bool b => exact .bool b
  | .num _ => cases h
  | .str s => exact .quoted s
  | .arr items =>
      rw [text, String.toList_append, String.toList_append, List.append_assoc]
      exact .append .beginArray (.append (itemsText_scans items h) .endArray)
  | .obj members =>
      rw [text, String.toList_append, String.toList_append, List.append_assoc]
      exact .append .beginObject (.append (membersText_scans members h) .endObject)

theorem itemsText_scans (js : List Json) (h : areWordy js = true) : Scans (itemsText js).toList (itemsTokens js) := by
  match js with
  | [] => exact .nil
  | [j] => exact text_scans j (Bool.and_eq_true_iff.1 h).1
  | j :: j' :: js =>
      obtain ⟨hj, hjs⟩ := Bool.and_eq_true_iff.1 h
      rw [itemsText, String.toList_append, String.toList_append, List.append_assoc]
      · exact .append (text_scans j hj) (.append .comma (itemsText_scans (j' :: js) hjs))
      · exact List.cons_ne_nil _ _

theorem membersText_scans (ms : List (String × Json)) (h : haveWordy ms = true) :
    Scans (membersText ms).toList (membersTokens ms) := by
  match ms with
  | [] => exact .nil
  | [(name, j)] =>
      rw [membersText, String.toList_append, String.toList_append, List.append_assoc]
      exact .append (.quoted name) (.append .colon (text_scans j (Bool.and_eq_true_iff.1 h).1))
  | (name, j) :: m :: ms =>
      obtain ⟨hj, hms⟩ := Bool.and_eq_true_iff.1 h
      rw [membersText]
      · simp only [String.toList_append, List.append_assoc]
        exact .append (.quoted name) (.append .colon (.append (text_scans j hj)
          (.append .comma (membersText_scans (m :: ms) hms))))
      · exact List.cons_ne_nil _ _

end

/-- A value that is written is cut into its tokens. -/
theorem ofText_text {j : Json} (h : j.isWordy = true) : Tokens.ofText (text j) = ⟨tokens j, .complete⟩ := by
  have hscans := text_scans j h
  have hfuel : (text j).toList.length + 1 = ((text j).toList.length - (tokens j).length + 1) + (tokens j).length := by
    have := hscans.short
    omega
  have hscan := hscans.scan ((text j).toList.length - (tokens j).length + 1) []
  rw [List.append_nil, ← hfuel] at hscan
  rw [Tokens.ofText, hscan]
  simp [scan, Tokens.after]

end Workflow.Json
