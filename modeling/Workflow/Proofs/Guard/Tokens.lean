import Workflow.Proofs.Guard.Grammar

/-!
# Reading tokens

What each reader of a token accepts: a token of its kind at the front of the text, with nothing behind it that it
would have read on.
-/

namespace Workflow.Guard

open Text (isBlank isDigit ofDecimal)

/-! ## Characters -/

theorem toNat_of_isBlank {c : Char} (h : isBlank c) :
    c.toNat ∈ [0x9, 0xa, 0xb, 0xc, 0xd, 0x20, 0x85, 0xa0, 0x1680, 0x2000, 0x2001, 0x2002, 0x2003, 0x2004, 0x2005,
      0x2006, 0x2007, 0x2008, 0x2009, 0x200a, 0x2028, 0x2029, 0x202f, 0x205f, 0x3000] := by
  simp only [isBlank, Bool.or_eq_true, Bool.and_eq_true, decide_eq_true_eq, beq_iff_eq] at h
  simp only [List.mem_cons, List.not_mem_nil, or_false]
  omega

theorem isPathChar_of_isBlank {c : Char} (h : isBlank c) : isPathChar c = false := by
  have hall : ∀ n ∈ [0x9, 0xa, 0xb, 0xc, 0xd, 0x20, 0x85, 0xa0, 0x1680, 0x2000, 0x2001, 0x2002, 0x2003, 0x2004,
      0x2005, 0x2006, 0x2007, 0x2008, 0x2009, 0x200a, 0x2028, 0x2029, 0x202f, 0x205f, 0x3000],
      isPathChar (Char.ofNat n) = false := by decide +kernel
  rw [← Char.ofNat_toNat c]
  exact hall _ (toNat_of_isBlank h)

theorem isPathChar_of_isDigit {c : Char} (h : isDigit c) : isPathChar c := by
  have hlt : c.toNat < 128 := by
    simp only [isDigit, Bool.and_eq_true, decide_eq_true_eq, Char.le_def, UInt32.le_iff_toNat_le] at h
    exact Nat.lt_of_le_of_lt h.2 (by decide)
  have hdigit : c.isDigit := by simpa [isDigit, Char.isDigit, Char.le_def] using h
  simp [isPathChar, Text.isAlphanumeric_of_lt hlt, Char.isAlphanum, hdigit]

theorem isPathChar_of_isNumberChar {c : Char} (h : isNumberChar c) : isPathChar c := by
  simp only [isNumberChar, Bool.or_eq_true] at h
  cases h with
  | inl h => exact isPathChar_of_isDigit h
  | inr h => simp_all [isPathChar]

theorem isPathChar_iff {c : Char} : isPathChar c ↔ isNameChar c ∨ c = '.' := by
  simp [isPathChar, isNameChar]

/-- The text goes on with no character of the kind. -/
def Ends (kind : Char → Bool) (rest : List Char) : Prop :=
  ∀ c ∈ rest.head?, kind c = false

namespace Ends

variable {kind : Char → Bool} {s rest : List Char}

theorem dropWhile (text : List Char) : Ends kind (text.dropWhile kind) := by
  intro c hc
  have hnot := List.head?_dropWhile_not kind text
  rwa [Option.mem_def.1 hc] at hnot

theorem takeWhile_append (h : Ends kind rest) (hs : ∀ c ∈ s, kind c) :
    (s ++ rest).takeWhile kind = s ∧ (s ++ rest).dropWhile kind = rest := by
  rw [List.takeWhile_append_of_pos hs, List.dropWhile_append_of_pos hs]
  cases rest with
  | nil => simp
  | cons c rest => simp [h c rfl]

end Ends

theorem token?_eq_some {token text rest : List Char} :
    token? token text = some rest ↔ text = token ++ rest := by
  induction token generalizing text with
  | nil => simp [token?]
  | cons t token ih =>
      cases text with
      | nil => simp [token?]
      | cons c text =>
          by_cases htc : t = c
          · simp [token?, htc, ih]
          · simp [token?, htc, Ne.symm htc]

/-! ## Fields -/

theorem splitDots_eq (text : List Char) : splitDots text = text.splitOn '.' := by
  induction text with
  | nil => simp [splitDots, List.splitOn_nil]
  | cons c text ih =>
      simp only [splitDots, ih, List.splitOn, List.splitOnP_cons_eq_if_modifyHead, beq_iff_eq]
      cases h : List.splitOnP (· == '.') text with
      | nil => exact (List.splitOnP_ne_nil _ _ h).elim
      | cons part parts => simp [List.modifyHead]

theorem mem_splitDots {text part : List Char} {c : Char} (hpart : part ∈ splitDots text) (hc : c ∈ part) :
    c ∈ text ∧ c ≠ '.' := by
  fun_induction splitDots text generalizing part with
  | case1 => simp_all
  | case2 text ih => grind
  | case3 d text hd hnil ih => simp_all
  | case4 d text hd first parts hparts ih => grind

theorem root?_eq_some {text rest : List Char} {root : Root} :
    root? text = some (root, rest) ↔ text = root.text ++ rest := by
  constructor
  · intro h
    simp only [root?] at h
    split at h
    case h_1 rest' hctx =>
      cases h
      exact token?_eq_some.1 hctx
    case h_2 =>
      obtain ⟨rest', huser, heq⟩ := Option.map_eq_some_iff.1 h
      cases heq
      exact token?_eq_some.1 huser
  · rintro rfl
    cases root <;> simp [root?, Root.text, token?]

theorem isPathChar_of_mem_intercalate {parts : List (List Char)}
    (hparts : ∀ part ∈ parts, ∀ c ∈ part, isNameChar c) :
    ∀ c ∈ ['.'].intercalate parts, isPathChar c := by
  induction parts with
  | nil => simp
  | cons part parts ih =>
      have hhead : ∀ c ∈ part, isPathChar c := fun c hc =>
        isPathChar_iff.2 (.inl (hparts part (List.mem_cons_self ..) c hc))
      have htail := ih fun part hpart => hparts part (List.mem_cons_of_mem _ hpart)
      cases parts with
      | nil => simpa using hhead
      | cons next parts =>
          simp only [List.intercalate_cons_cons, List.mem_append, List.mem_singleton]
          rintro c ((hc | rfl) | hc)
          · exact hhead c hc
          · decide
          · exact htail c hc

theorem isNameChar_of_mem_splitDots {text part : List Char} (htext : ∀ c ∈ text, isPathChar c)
    (hpart : part ∈ splitDots text) : ∀ c ∈ part, isNameChar c := by
  intro c hc
  obtain ⟨hmem, hdot⟩ := mem_splitDots hpart hc
  exact (isPathChar_iff.1 (htext c hmem)).resolve_right hdot

theorem Path.IsField.splitDots {p : Path} (hp : p.IsField) :
    splitDots (['.'].intercalate (p.parts.map String.toList)) = p.parts.map String.toList := by
  rw [splitDots_eq, List.splitOn_intercalate]
  · intro part hpart hdot
    obtain ⟨name, hname, rfl⟩ := List.mem_map.1 hpart
    exact absurd ((hp.names name hname).2 '.' hdot) (by decide)
  · simpa using hp.nonempty

theorem Path.text_of_splitDots (root : Root) (names : List Char) :
    Path.text ⟨root, (Guard.splitDots names).map String.ofList⟩ = root.text ++ names := by
  have hparts : (Guard.splitDots names).map (String.toList ∘ String.ofList) = Guard.splitDots names := by simp
  rw [Path.text, List.map_map, hparts, splitDots_eq, List.intercalate_splitOn]

theorem Path.isField_of_splitDots (root : Root) {names : List Char} (hnames : ∀ c ∈ names, isPathChar c)
    (hsome : ∀ part ∈ Guard.splitDots names, part ≠ []) :
    Path.IsField ⟨root, (Guard.splitDots names).map String.ofList⟩ := by
  constructor
  · simp [splitDots_eq, List.splitOn, List.splitOnP_ne_nil]
  · intro name hname
    obtain ⟨part, hpart, rfl⟩ := List.mem_map.1 hname
    exact ⟨by simpa using hsome part hpart, by simpa using isNameChar_of_mem_splitDots hnames hpart⟩

theorem field_eq_ok {text rest : List Char} {p : Path} :
    field text = .ok (p, rest) ↔ p.IsField ∧ text = p.text ++ rest ∧ Ends isPathChar rest := by
  constructor
  · intro h
    simp only [field] at h
    split at h
    · cases h
    · next root behind hroot =>
      split at h
      · cases h
      · next hparts =>
        cases h
        have hsome : ∀ part ∈ splitDots (behind.takeWhile isPathChar), part ≠ [] := by
          rintro part hpart rfl
          exact hparts (List.any_eq_true.2 ⟨[], hpart, rfl⟩)
        refine ⟨Path.isField_of_splitDots root (fun c hc => List.mem_takeWhile_imp hc) hsome, ?_, .dropWhile behind⟩
        rw [root?_eq_some.1 hroot, Path.text_of_splitDots, List.append_assoc, List.takeWhile_append_dropWhile]
  · rintro ⟨hp, rfl, hends⟩
    have hchars : ∀ part ∈ p.parts.map String.toList, ∀ c ∈ part, isNameChar c := by
      simpa using fun name hname => (hp.names name hname).2
    have hroot : root? (p.text ++ rest) = some (p.root, _) :=
      root?_eq_some.2 (List.append_assoc ..)
    have hnames := hends.takeWhile_append (isPathChar_of_mem_intercalate hchars)
    have hsome : (p.parts.map String.toList).any List.isEmpty = false := by
      simpa using fun name hname => (hp.names name hname).1
    simp only [field, hroot, hnames, hp.splitDots, hsome]
    simp

/-! ## Numbers and constants -/

theorem isBlank_of_isPathChar {c : Char} (h : isPathChar c) : isBlank c = false := by
  rw [Bool.eq_false_iff]
  intro hblank
  simp [isPathChar_of_isBlank hblank] at h

theorem isDigit_of_isNumberChar {c : Char} (h : isNumberChar c) (hdot : c ≠ '.') : isDigit c := by
  simpa [isNumberChar, hdot] using h

theorem numberValue_whole {negative : Bool} {digits : List Char} (hdigits : ∀ c ∈ digits, isDigit c) :
    numberValue negative digits = .ofRatio negative (ofDecimal digits) 1 := by
  have hdrop : digits.dropWhile isDigit = [] := List.dropWhile_eq_nil_iff.2 hdigits
  have htake : digits.takeWhile isDigit = digits := List.takeWhile_eq_self_iff.2 hdigits
  simp [numberValue, hdrop, htake]

theorem numberValue_point {negative : Bool} {digits decimals : List Char} (hdigits : ∀ c ∈ digits, isDigit c) :
    numberValue negative (digits ++ '.' :: decimals) =
      .ofRatio negative (ofDecimal (digits ++ decimals)) (Nat.pow 10 decimals.length) := by
  have hends : Ends isDigit ('.' :: decimals) := by simp [Ends, isDigit]
  simp [numberValue, hends.takeWhile_append hdigits]

theorem count_dot {digits : List Char} (hdigits : ∀ c ∈ digits, isDigit c) : digits.count '.' = 0 :=
  List.count_eq_zero.2 fun hdot => absurd (hdigits '.' hdot) (by decide)

theorem isNumber_whole {digits : List Char} (hdigits : ∀ c ∈ digits, isDigit c) :
    isNumber digits ↔ digits ≠ [] := by
  cases digits with
  | nil => simp [isNumber]
  | cons d digits => simp [isNumber, hdigits d (List.mem_cons_self ..), count_dot hdigits]

theorem isNumber_point {digits decimals : List Char} (hdigits : ∀ c ∈ digits, isDigit c)
    (hdecimals : ∀ c ∈ decimals, isDigit c) :
    isNumber (digits ++ '.' :: decimals) ↔ digits ++ decimals ≠ [] := by
  rw [← isNumber_whole (by simpa [or_imp, forall_and] using ⟨hdigits, hdecimals⟩)]
  simp [isNumber, count_dot hdigits, count_dot hdecimals, show isDigit '.' = false from rfl]

/-- A text of digits and points with a single point at most has digits on both its sides. -/
theorem digits_or_point {body : List Char} (hbody : ∀ c ∈ body, isNumberChar c)
    (hcount : body.count '.' ≤ 1) :
    (∀ c ∈ body, isDigit c) ∨ ∃ digits decimals, body = digits ++ '.' :: decimals ∧
      (∀ c ∈ digits, isDigit c) ∧ ∀ c ∈ decimals, isDigit c := by
  by_cases hdot : '.' ∈ body
  · obtain ⟨digits, decimals, rfl, hdigits⟩ := List.eq_append_cons_of_mem hdot
    have hdecimals : '.' ∉ decimals := by
      rw [List.count_append, List.count_cons_self] at hcount
      exact List.count_eq_zero.1 (by omega)
    refine .inr ⟨digits, decimals, rfl, fun c hc => ?_, fun c hc => ?_⟩
    · exact isDigit_of_isNumberChar (hbody c (by simp [hc])) (by rintro rfl; exact hdigits hc)
    · exact isDigit_of_isNumberChar (hbody c (by simp [hc])) (by rintro rfl; exact hdecimals hc)
  · exact .inl fun c hc => isDigit_of_isNumberChar (hbody c hc) (by rintro rfl; exact hdot hc)

theorem numeral_iff {s : List Char} {x : Binary64} :
    Numeral s x ↔ ∃ negative body, s = minus negative ++ body ∧ (∀ c ∈ body, isNumberChar c) ∧
      isNumber body ∧ x = numberValue negative body := by
  constructor
  · intro h
    cases h with
    | whole negative hsome hdigits =>
        exact ⟨negative, _, rfl, fun c hc => by simp [isNumberChar, hdigits c hc],
          (isNumber_whole hdigits).2 hsome, (numberValue_whole hdigits).symm⟩
    | point negative hsome hdigits hdecimals =>
        refine ⟨negative, _, rfl, ?_, (isNumber_point hdigits hdecimals).2 hsome,
          (numberValue_point hdigits).symm⟩
        simp only [List.mem_append, List.mem_cons]
        rintro c (hc | rfl | hc)
        · simp [isNumberChar, hdigits c hc]
        · decide
        · simp [isNumberChar, hdecimals c hc]
  · rintro ⟨negative, body, rfl, hbody, hnumber, rfl⟩
    have hcount : body.count '.' ≤ 1 := by
      simp only [isNumber, Bool.and_eq_true, decide_eq_true_eq] at hnumber
      exact hnumber.2
    rcases digits_or_point hbody hcount with hdigits | ⟨digits, decimals, rfl, hdigits, hdecimals⟩
    · rw [numberValue_whole hdigits]
      exact .whole negative ((isNumber_whole hdigits).1 hnumber) hdigits
    · rw [numberValue_point hdigits]
      exact .point negative ((isNumber_point hdigits hdecimals).1 hnumber) hdigits hdecimals

theorem Numeral.head {s : List Char} {x : Binary64} (h : Numeral s x) :
    ∃ c t, s = c :: t ∧ isBlank c = false ∧ (c = '-' ∨ isNumberChar c) := by
  obtain ⟨negative, body, rfl, hbody, hnumber, -⟩ := numeral_iff.1 h
  cases negative with
  | true => exact ⟨'-', body, rfl, by decide, .inl rfl⟩
  | false =>
      cases body with
      | nil => simp [isNumber] at hnumber
      | cons c body =>
          have hc := hbody c (List.mem_cons_self ..)
          exact ⟨c, body, rfl, isBlank_of_isPathChar (isPathChar_of_isNumberChar hc), .inr hc⟩

/-- A number behind its sign. -/
def unsigned (negative : Bool) : Parser Binary64 := fun text =>
  let body := text.takeWhile isNumberChar
  if isNumber body then .ok (numberValue negative body, text.dropWhile isNumberChar)
  else .error (.invalidNumber (String.ofList (minus negative ++ body)))

theorem number_eq (text : List Char) :
    number text = match Text.trimStart text with
      | '-' :: behind => unsigned true behind
      | text => unsigned false text := by
  simp only [number]
  generalize Text.trimStart text = trimmed
  split
  · simp [unsigned, minus]
  · simp [unsigned, minus]

theorem unsigned_eq_ok {negative : Bool} {text rest : List Char} {x : Binary64} :
    unsigned negative text = .ok (x, rest) ↔ ∃ body, (∀ c ∈ body, isNumberChar c) ∧ isNumber body ∧
      x = numberValue negative body ∧ text = body ++ rest ∧ Ends isNumberChar rest := by
  constructor
  · intro h
    simp only [unsigned] at h
    split at h
    · next hnumber =>
      simp only [Except.ok.injEq, Prod.mk.injEq] at h
      obtain ⟨rfl, rfl⟩ := h
      exact ⟨_, fun c hc => List.mem_takeWhile_imp hc, hnumber, rfl, List.takeWhile_append_dropWhile.symm,
        Ends.dropWhile text⟩
    · cases h
  · rintro ⟨body, hbody, hnumber, rfl, rfl, hends⟩
    simp [unsigned, hends.takeWhile_append hbody, hnumber]

theorem number_eq_ok {text rest : List Char} {x : Binary64} :
    number text = .ok (x, rest) ↔
      ∃ b s, Gap b ∧ Numeral s x ∧ text = b ++ s ++ rest ∧ Ends isNumberChar rest := by
  rw [number_eq]
  constructor
  · obtain ⟨b, hb, htext⟩ := exists_gap text
    intro h
    split at h
    · next behind htrim =>
      obtain ⟨body, hbody, hnumber, rfl, rfl, hends⟩ := unsigned_eq_ok.1 h
      exact ⟨b, minus true ++ body, hb, numeral_iff.2 ⟨true, body, rfl, hbody, hnumber, rfl⟩,
        by rw [htext, htrim]; simp [minus], hends⟩
    · obtain ⟨body, hbody, hnumber, rfl, htrim, hends⟩ := unsigned_eq_ok.1 h
      exact ⟨b, minus false ++ body, hb, numeral_iff.2 ⟨false, body, rfl, hbody, hnumber, rfl⟩,
        by rw [htext, htrim]; simp [minus], hends⟩
  · rintro ⟨b, s, hb, hs, rfl, hends⟩
    obtain ⟨c, t, hc, hblank, -⟩ := hs.head
    have htrim : Text.trimStart (b ++ s ++ rest) = s ++ rest := by
      rw [List.append_assoc, hb.trimStart_append, hc, List.cons_append, trimStart_cons hblank]
    obtain ⟨negative, body, rfl, hbody, hnumber, rfl⟩ := numeral_iff.1 hs
    rw [htrim]
    cases negative with
    | true => exact unsigned_eq_ok.2 ⟨body, hbody, hnumber, rfl, rfl, hends⟩
    | false =>
        split
        · next behind hminus =>
          cases body with
          | nil => simp [isNumber] at hnumber
          | cons d body =>
              cases hminus
              exact absurd (hbody '-' (List.mem_cons_self ..)) (by decide)
        · exact unsigned_eq_ok.2 ⟨body, hbody, hnumber, rfl, rfl, hends⟩

theorem quotedText_eq_ok {text rest : List Char} {s : String} :
    quotedText text = .ok (s, rest) ↔ '"' ∉ s.toList ∧ text = s.toList ++ '"' :: rest := by
  constructor
  · intro h
    have hends : Ends (· != '"') (text.dropWhile (· != '"')) := Ends.dropWhile text
    have htext := List.takeWhile_append_dropWhile (p := (· != '"')) (l := text)
    simp only [quotedText] at h
    split at h
    · cases h
    · next c behind hdrop =>
      cases h
      rw [hdrop] at hends htext
      have hc : c = '"' := by simpa using hends c rfl
      refine ⟨fun hmem => ?_, by simpa [hc] using htext.symm⟩
      rw [String.toList_ofList] at hmem
      simpa using List.mem_takeWhile_imp hmem
  · rintro ⟨hs, rfl⟩
    have hchars : ∀ c ∈ s.toList, (c != '"') = true := by
      rintro c hc
      rw [bne_iff_ne]
      rintro rfl
      exact hs hc
    have hends : Ends (· != '"') ('"' :: rest) := by simp [Ends]
    simp [quotedText, hends.takeWhile_append hchars]

theorem constant_sound {text rest : List Char} {c : Constant} (h : constant text = .ok (c, rest)) :
    ∃ b s, Gap b ∧ Literal s c ∧ text = b ++ s ++ rest := by
  obtain ⟨b, hb, htext⟩ := exists_gap text
  simp only [constant] at h
  split at h
  case h_1 behind htoken =>
    cases h
    exact ⟨b, _, hb, .true, by rw [htext, token?_eq_some.1 htoken]; simp⟩
  case h_2 =>
  split at h
  case h_1 behind htoken =>
    cases h
    exact ⟨b, _, hb, .false, by rw [htext, token?_eq_some.1 htoken]; simp⟩
  case h_2 =>
  split at h
  case h_1 behind htoken =>
    cases h
    exact ⟨b, _, hb, .null, by rw [htext, token?_eq_some.1 htoken]; simp⟩
  case h_2 =>
  split at h
  case h_1 behind htoken =>
    cases hquoted : quotedText behind with
    | error e => simp [hquoted, Except.map] at h
    | ok r =>
        obtain ⟨s, behind⟩ := r
        simp only [hquoted, Except.map, Except.ok.injEq, Prod.mk.injEq] at h
        obtain ⟨rfl, rfl⟩ := h
        obtain ⟨hs, hrest⟩ := quotedText_eq_ok.1 hquoted
        exact ⟨b, _, hb, .quoted hs, by rw [htext, token?_eq_some.1 htoken, hrest]; simp⟩
  case h_2 =>
    cases hnumber : number (Text.trimStart text) with
    | error e => simp [hnumber, bind, Except.bind] at h
    | ok r =>
        obtain ⟨x, behind⟩ := r
        obtain ⟨b', s, hb', hs, htrim, -⟩ := number_eq_ok.1 hnumber
        simp only [hnumber, bind, Except.bind] at h
        split at h
        · cases h
        · next hfinite =>
          simp only [pure, Except.pure, Except.ok.injEq, Prod.mk.injEq] at h
          obtain ⟨rfl, rfl⟩ := h
          exact ⟨b ++ b', s, Gap.append_iff.2 ⟨hb, hb'⟩, .number hs (by simpa using hfinite),
            by rw [htext, htrim]; simp⟩

theorem token?_cons_of_ne {t c : Char} {token text : List Char} (h : t ≠ c) :
    token? (t :: token) (c :: text) = none := by
  simp [token?, h]

/-- A constant with the head of a number is read as one. -/
theorem constant_numeral {b s rest : List Char} {x : Binary64} (hb : Gap b) (hs : Numeral s x) :
    constant (b ++ s ++ rest) = (do
      let (x, rest) ← number (s ++ rest)
      if x.isInfinite then .error (.numberOutOfRange x.isNegative) else return (.num x, rest)) := by
  obtain ⟨c, t, hc, hblank, hhead⟩ := hs.head
  have hother : ∀ d ∈ ['t', 'f', 'n', '"'], d ≠ c := by
    rintro d hd rfl
    simp only [List.mem_cons, List.not_mem_nil, or_false] at hd
    rcases hd with rfl | rfl | rfl | rfl <;> revert hhead <;> decide
  subst hc
  rw [constant, List.append_assoc, hb.trimStart_append, List.cons_append, trimStart_cons hblank]
  simp only [token?_cons_of_ne, hother, List.mem_cons, true_or, or_true, ne_eq, not_false_eq_true]

theorem constant_append {b s rest : List Char} {c : Constant} (hb : Gap b) (hs : Literal s c)
    (hends : Ends isNumberChar rest) : constant (b ++ s ++ rest) = .ok (c, rest) := by
  rw [List.append_assoc]
  cases hs with
  | true => simp [constant, hb.trimStart_append, trimStart_cons, isBlank, token?]
  | false => simp [constant, hb.trimStart_append, trimStart_cons, isBlank, token?]
  | null => simp [constant, hb.trimStart_append, trimStart_cons, isBlank, token?]
  | @quoted s hs =>
      have hquoted : quotedText (s.toList ++ '"' :: rest) = .ok (s, rest) := quotedText_eq_ok.2 ⟨hs, rfl⟩
      simp [constant, hb.trimStart_append, trimStart_cons, isBlank, token?, hquoted, Except.map]
  | @number s x hx hfinite =>
      have hnumber : number (s ++ rest) = .ok (x, rest) :=
        number_eq_ok.2 ⟨[], s, Gap.nil, hx, rfl, hends⟩
      rw [← List.append_assoc, constant_numeral hb hx, hnumber]
      simp [bind, Except.bind, pure, Except.pure, hfinite]

end Workflow.Guard
