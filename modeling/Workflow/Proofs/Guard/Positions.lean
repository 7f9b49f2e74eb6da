import Workflow.Proofs.Guard.Language

/-!
# Where a guard stops being one

A text that begins with a guard and goes on with something else is rejected with the position of what it goes on
with. No guard at the front of the text reaches beyond that position: a reader reads on at least as far as any
expression of its level goes.
-/

namespace Workflow.Guard

open Text (isBlank byteLength)

/-! ## Ends of expressions -/

theorem Path.IsField.chars {p : Path} (hp : p.IsField) : ∀ c ∈ p.text, isPathChar c := by
  have hnames : ∀ c ∈ ['.'].intercalate (p.parts.map String.toList), isPathChar c := by
    refine isPathChar_of_mem_intercalate fun part hpart => ?_
    obtain ⟨name, hname, rfl⟩ := List.mem_map.1 hpart
    exact (hp.names name hname).2
  have hroot : ∀ c ∈ p.root.text, isPathChar c :=
    List.all_eq_true.1 (by cases p.root <;> decide)
  simp only [Path.text, List.mem_append]
  rintro c (hc | hc)
  · exact hroot c hc
  · exact hnames c hc

/-- The text ends with something other than white space. -/
def EndsSolid (text : List Char) : Prop :=
  ∃ front c, text = front ++ [c] ∧ isBlank c = false

namespace EndsSolid

variable {s t : List Char}

theorem append (h : EndsSolid t) (s : List Char) : EndsSolid (s ++ t) := by
  obtain ⟨front, c, rfl, hc⟩ := h
  exact ⟨s ++ front, c, by simp, hc⟩

theorem of_forall (hne : s ≠ []) (hs : ∀ c ∈ s, isBlank c = false) : EndsSolid s :=
  ⟨s.dropLast, s.getLast hne, (List.dropLast_append_getLast hne).symm, hs _ (List.getLast_mem hne)⟩

theorem trimEnd (h : EndsSolid s) {b : List Char} (hb : Gap b) : Text.trimEnd (s ++ b) = s := by
  obtain ⟨front, c, rfl, hc⟩ := h
  have hb' : Gap b.reverse := fun d hd => hb d (List.mem_reverse.1 hd)
  have hdrop : Text.trimStart (b.reverse ++ c :: front.reverse) = c :: front.reverse := by
    rw [hb'.trimStart_append, trimStart_cons hc]
  have hreverse : (front ++ [c] ++ b).reverse = b.reverse ++ c :: front.reverse := by simp
  rw [Text.trimEnd, hreverse]
  change (Text.trimStart (b.reverse ++ c :: front.reverse)).reverse = front ++ [c]
  rw [hdrop]
  simp

end EndsSolid

theorem Path.IsField.endsSolid {p : Path} (hp : p.IsField) : EndsSolid p.text := by
  obtain ⟨c, t, htext, -⟩ := p.head
  exact .of_forall (by simp [htext]) fun c hc => isBlank_of_isPathChar (hp.chars c hc)

theorem Numeral.endsSolid {s : List Char} {x : Binary64} (h : Numeral s x) : EndsSolid s := by
  obtain ⟨negative, body, rfl, hbody, hnumber, -⟩ := numeral_iff.1 h
  refine EndsSolid.append (.of_forall ?_ fun c hc => ?_) _
  · rintro rfl
    simp [isNumber] at hnumber
  · exact isBlank_of_isPathChar (isPathChar_of_isNumberChar (hbody c hc))

theorem Literal.endsSolid {s : List Char} {c : Constant} (h : Literal s c) : EndsSolid s := by
  cases h with
  | true | false | null => exact .of_forall (by simp) (by simp [isBlank])
  | quoted => exact ⟨_, '"', rfl, by decide⟩
  | number hx => exact hx.endsSolid

theorem Derives.endsSolid {level : Level} {s : List Char} {g : Guard} (h : Derives level s g) : EndsSolid s := by
  induction h with
  | truthy hp => exact hp.endsSolid
  | equals _ _ _ hs | differs _ _ _ hs => exact hs.endsSolid.append _
  | compare _ _ _ _ hs => exact hs.endsSolid.append _
  | not _ _ ih => exact ih.append _
  | group => exact ⟨_, ')', rfl, by decide⟩
  | unary _ ih | conjunction _ ih => exact ih
  | and _ _ _ _ _ ih | or _ _ _ _ _ ih => exact ih.append _

/-- A derived text is a guard, also with a gap behind it. -/
theorem Derives.parse {s b : List Char} {g : Guard} (h : Derives .or s g) (hb : Gap b) :
    parse (String.ofList (s ++ b)) = .ok g := by
  obtain ⟨c, t, hs, hc⟩ := h.head
  have hsolid : ∀ d ∈ ['!', '(', 'c', 'u'], isBlank d = false := by simp [isBlank]
  have hblank := hsolid c hc
  have htrim : Text.trim (s ++ b) = c :: t := by
    rw [Text.trim, hs, List.cons_append, trimStart_cons hblank, ← List.cons_append, ← hs, h.endsSolid.trimEnd hb]
  obtain ⟨rest', hread, hrest⟩ :=
    Readable.expression h.readable (Nat.le_refl _) Gap.nil (Follows.nil : Follows .or [])
  have hnil : Text.trimStart rest' = [] := hrest
  rw [List.nil_append, List.append_nil, hs] at hread
  simp only [Guard.parse, String.toList_ofList, htrim, ofTrimmed, hread, bind, Except.bind, hnil, List.isEmpty_nil,
    if_true]
  rfl

/-! ## Reading on -/

/-- The reader never stops within the text. -/
def Consumes {α : Type} (p : Parser α) (s : List Char) : Prop :=
  ∀ ⦃lead rest x rest'⦄, Gap lead → p (lead ++ s ++ rest) = .ok (x, rest') → rest'.length ≤ rest.length

theorem Ends.length_le {kind : Char → Bool} {s t rest rest' : List Char} (h : Ends kind rest')
    (hs : ∀ c ∈ s, kind c) (htext : s ++ rest = t ++ rest') : rest'.length ≤ rest.length := by
  obtain ⟨a, rfl, rfl⟩ | ⟨a, rfl, rfl⟩ := List.append_eq_append_iff.1 htext
  · simp
  · cases a with
    | nil => simp
    | cons c a => exact absurd (hs c (by simp)) (by simp [h c rfl])

theorem Numeral.consumes {s : List Char} {x : Binary64} (h : Numeral s x) : Consumes number s := by
  intro lead rest x' rest' hlead hread
  obtain ⟨c, t, hs, hblank, -⟩ := h.head
  obtain ⟨negative, body, rfl, hbody, hnumber, -⟩ := numeral_iff.1 h
  have htrim : Text.trimStart (lead ++ (minus negative ++ body) ++ rest) = minus negative ++ body ++ rest := by
    rw [List.append_assoc, hlead.trimStart_append, hs, List.cons_append, trimStart_cons hblank]
  have hunsigned : ∃ negative', unsigned negative' (body ++ rest) = .ok (x', rest') := by
    rw [number_eq, htrim] at hread
    cases negative with
    | true => exact ⟨true, hread⟩
    | false =>
        cases body with
        | nil => simp [isNumber] at hnumber
        | cons d body =>
            have hd : d ≠ '-' := by
              rintro rfl
              exact absurd (hbody '-' (List.mem_cons_self ..)) (by decide)
            refine ⟨false, ?_⟩
            simpa [minus, hd] using hread
  obtain ⟨negative', hunsigned⟩ := hunsigned
  obtain ⟨body', -, -, -, htext, hends⟩ := unsigned_eq_ok.1 hunsigned
  exact hends.length_le hbody htext

theorem Literal.consumes {s : List Char} {c : Constant} (h : Literal s c) : Consumes constant s := by
  intro lead rest c' rest' hlead hread
  cases h with
  | @number s x hx =>
      rw [constant_numeral hlead hx] at hread
      obtain ⟨⟨y, behind⟩, hnumber, hread⟩ := bind_eq_ok.1 hread
      dsimp only at hread
      split at hread
      · cases hread
      · cases hread
        exact hx.consumes Gap.nil hnumber
  | @quoted s hs =>
      have hquoted : quotedText (s.toList ++ '"' :: rest) = .ok (s, rest) := quotedText_eq_ok.2 ⟨hs, rfl⟩
      simp [constant, hlead.trimStart_append, trimStart_cons, isBlank, token?, hquoted, Except.map] at hread
      simp [hread.2]
  | _ =>
      simp [constant, hlead.trimStart_append, trimStart_cons, isBlank, token?] at hread
      simp [hread.2]

/-- A comparison goes at least as far as its field. -/
theorem comparison_length_le {text rest : List Char} {g : Guard} (h : comparison text = .ok (g, rest)) :
    ∃ p behind, field text = .ok (p, behind) ∧ rest.length ≤ behind.length := by
  obtain ⟨⟨p, behind⟩, hfield, hread⟩ := bind_eq_ok.1 h
  refine ⟨p, behind, hfield, Nat.le_trans ?_ (trimStart_length_le behind)⟩
  dsimp only at hread
  cases hop : operator? (Text.trimStart behind) with
  | none =>
      simp only [hop] at hread
      cases hread
      exact Nat.le_refl _
  | some r =>
      obtain ⟨op, next⟩ := r
      rw [operator?_eq_some hop, List.length_append]
      simp only [hop] at hread
      cases op with
      | equals | differs =>
          obtain ⟨⟨c, behind⟩, hconstant, heq⟩ := bind_eq_ok.1 hread
          cases heq
          obtain ⟨b, s, -, -, rfl⟩ := constant_sound hconstant
          simp only [List.length_append]
          omega
      | compare op =>
          obtain ⟨⟨x, behind⟩, hnumber, heq⟩ := bind_eq_ok.1 hread
          cases heq
          obtain ⟨b, s, -, -, rfl, -⟩ := number_eq_ok.1 hnumber
          simp only [List.length_append]
          omega

theorem Path.IsField.comparison {p : Path} (hp : p.IsField) {rest rest' : List Char} {g : Guard}
    (h : comparison (p.text ++ rest) = .ok (g, rest')) : rest'.length ≤ rest.length := by
  obtain ⟨q, behind, hfield, hle⟩ := comparison_length_le h
  obtain ⟨-, htext, hends⟩ := field_eq_ok.1 hfield
  exact Nat.le_trans hle (hends.length_le hp.chars htext)

section Chains

variable {inner : Level} {token : List Char} {join : Guard → Guard → Guard} {operand : Parser Guard}

theorem chain_length_le (hoperand : Sound inner operand) {n : Nat} {left g : Guard} {text rest : List Char}
    (h : chain token join operand n left text = .ok (g, rest)) : rest.length ≤ text.length := by
  have htrim := trimStart_length_le text
  induction n generalizing left text with
  | zero =>
      cases h
      exact htrim
  | succ n ih =>
      simp only [chain] at h
      split at h
      case h_1 next htoken =>
        obtain ⟨⟨right, behind⟩, hright, h⟩ := bind_eq_ok.1 h
        have hnext := congrArg List.length (token?_eq_some.1 htoken)
        have hle : behind.length ≤ next.length := (hoperand hright).length_le
        have hrest : rest.length ≤ behind.length := ih h (trimStart_length_le behind)
        rw [List.length_append] at hnext
        omega
      case h_2 =>
        cases h
        exact htrim

namespace Consumes

variable {s t b b' : List Char} {l : Guard}

theorem single (hoperand : Sound inner operand) (h : Consumes operand s) :
    Consumes (chained token join operand) s := by
  intro lead rest g rest' hlead hread
  obtain ⟨⟨left, behind⟩, hleft, hread⟩ := bind_eq_ok.1 hread
  exact Nat.le_trans (chain_length_le hoperand hread) (h hlead hleft)

/-- What stands before the last operand is read to its end, since a token follows it. -/
theorem append {c : Char} {tail : List Char} (htoken : token = c :: tail) (hblank : isBlank c = false)
    (hc : c ∈ inner.closers) (hoperand : Sound inner operand) (hs : Reaches token join operand inner s l)
    (hb : Gap b) (hb' : Gap b') (ht : Consumes operand t) :
    Consumes (chained token join operand) (s ++ b ++ token ++ b' ++ t) := by
  intro lead rest g rest' hlead hread
  have hfollows : Follows inner (b ++ (token ++ (b' ++ t ++ rest))) := by
    rw [htoken]
    exact .token hb hc hblank
  have htrim : Text.trimStart (b ++ (token ++ (b' ++ t ++ rest))) = token ++ (b' ++ t ++ rest) := by
    rw [hb.trimStart_append, htoken, List.cons_append, trimStart_cons hblank]
  have htoken? : token? token (token ++ (b' ++ t ++ rest)) = some (b' ++ t ++ rest) := token?_eq_some.2 rfl
  obtain ⟨n, hn⟩ : ∃ n, (b ++ (token ++ (b' ++ t ++ rest))).length = n + 1 := by
    simp only [htoken, List.length_append, List.length_cons]
    exact ⟨b.length + (tail.length + (b'.length + t.length + rest.length)), by omega⟩
  have htext : lead ++ (s ++ b ++ token ++ b' ++ t) ++ rest =
      lead ++ s ++ (b ++ (token ++ (b' ++ t ++ rest))) := by simp
  rw [htext, hs hlead hfollows, hn] at hread
  simp only [chain, htrim, htoken?] at hread
  obtain ⟨⟨right, behind⟩, hright, hread⟩ := bind_eq_ok.1 hread
  exact Nat.le_trans (chain_length_le hoperand hread) (ht hb' hright)

end Consumes

end Chains

/-- What an induction on the grammar shows of the readers of each level. -/
def Exceeded : Level → List Char → Prop
  | .unary, s => ∀ {n fuel}, s.length ≤ n → s.length ≤ fuel → Consumes (unary (expression n) fuel) s
  | .and, s => ∀ {n}, s.length ≤ n → Consumes (conjunction n) s
  | .or, s => ∀ {n}, s.length ≤ n → Consumes (expression (n + 1)) s

namespace Exceeded

variable {b b' s : List Char}

theorem operand {n : Nat} (h : Exceeded .unary s) (hn : s.length ≤ n) : Consumes (operand n) s := by
  intro lead rest g rest' hlead hread
  refine h hn ?_ hlead hread
  simp only [List.length_append]
  omega

/-- A comparison is read on by what reads its right side. -/
theorem comparison {α : Type} {p : Path} (hb' : Gap b') (op : Operator) {value : Parser α}
    (hvalue : Consumes value s) (hends : ∀ {rest}, Ends (· == '=') (b' ++ s ++ rest))
    {tree : α → Guard}
    (hread : ∀ {rest}, Ends (· == '=') rest → Guard.comparison (p.text ++ (b ++ (op.text ++ rest))) =
      (fun r => (tree r.1, r.2)) <$> value rest) :
    Exceeded .unary (p.text ++ b ++ op.text ++ b' ++ s) := by
  intro n fuel _ _ lead rest g rest' hlead h
  have htext : lead ++ (p.text ++ b ++ op.text ++ b' ++ s) ++ rest =
      lead ++ (p.text ++ (b ++ (op.text ++ (b' ++ s ++ rest)))) := by simp
  rw [htext, unary_path hlead, hread hends] at h
  cases hright : value (b' ++ s ++ rest) with
  | error e =>
      rw [hright] at h
      cases h
  | ok r =>
      rw [hright] at h
      cases h
      exact hvalue hb' hright

end Exceeded

theorem Derives.exceeded {level : Level} {s : List Char} {g : Guard} (h : Derives level s g) :
    Exceeded level s := by
  induction h with
  | truthy hp =>
      intro n fuel _ _ lead rest g rest' hlead hread
      rw [List.append_assoc, unary_path hlead] at hread
      exact hp.comparison hread
  | equals hp hb hb' hs =>
      exact Exceeded.comparison hb' .equals hs.consumes (hs.ends hb') (comparison_operator hp hb .equals)
  | differs hp hb hb' hs =>
      exact Exceeded.comparison hb' .differs hs.consumes (hs.ends hb') (comparison_operator hp hb .differs)
  | compare op hp hb hb' hs =>
      exact Exceeded.comparison hb' (.compare op) hs.consumes (hs.ends hb')
        (comparison_operator hp hb (.compare op))
  | @not b s g hb hs ih =>
      intro n fuel hn hfuel lead rest g' rest' hlead hread
      simp only [List.cons_append, List.length_cons, List.length_append] at hn hfuel
      obtain ⟨fuel, rfl⟩ : ∃ k, fuel = k + 1 := ⟨fuel - 1, by omega⟩
      rw [unary_not hlead hb hs.ends] at hread
      cases hinner : Guard.unary (expression n) fuel (b ++ s ++ rest) with
      | error e =>
          rw [hinner] at hread
          cases hread
      | ok r =>
          rw [hinner] at hread
          cases hread
          exact ih (by omega) (by omega) hb hinner
  | @group b b' s g hb hs hb' ih =>
      -- The closing token stops the reader inside, so that it reads just what was derived.
      intro n fuel hn _ lead rest g' rest' hlead hread
      simp only [List.cons_append, List.length_cons, List.length_append] at hn
      obtain ⟨n, rfl⟩ : ∃ k, n = k + 1 := ⟨n - 1, by omega⟩
      rw [unary_group hlead hb hb' (Readable.expression hs.readable (by omega)) fuel] at hread
      cases hread
      exact Nat.le_refl _
  | unary hs ih => exact fun hn => .single (operand_sound _) (Exceeded.operand ih hn)
  | and hs hb hb' ht ihs iht =>
      intro n hn
      simp only [List.length_append] at hn
      exact .append rfl (by decide) (by simp [Level.closers]) (operand_sound n) (hs.readable (by omega)) hb hb'
        (Exceeded.operand iht (by omega))
  | conjunction hs ih => exact fun hn => .single (conjunction_sound (expression_sound _)) (ih hn)
  | or hs hb hb' ht ihs iht =>
      intro n hn
      simp only [List.length_append] at hn
      exact .append rfl (by decide) (by simp [Level.closers]) (conjunction_sound (expression_sound n))
        (hs.readable (by omega)) hb hb' (iht (by omega))

/-! ## Errors of the readers -/

/-- The result is not the error of a reader that stopped before the end of the text. -/
def Unstopped {α : Type} (r : Except GuardError α) : Prop :=
  ∀ position, r ≠ .error (.unexpectedInput position)

namespace Unstopped

variable {α β : Type} {text : List Char}

theorem ok (a : α) : Unstopped (.ok a) := nofun

theorem bind {r : Except GuardError α} {f : α → Except GuardError β} (hr : Unstopped r)
    (hf : ∀ a, Unstopped (f a)) : Unstopped (r >>= f) := by
  cases r with
  | error e => exact fun position h => hr position (by cases h; rfl)
  | ok a => exact hf a

theorem map {r : Except GuardError α} (hr : Unstopped r) (f : α → β) : Unstopped (r.map f) := by
  cases r with
  | error e => exact fun position h => hr position (by cases h; rfl)
  | ok a => exact ok (f a)

theorem field : Unstopped (Guard.field text) := by
  simp only [Guard.field]
  split
  · rintro _ ⟨⟩
  · split
    · rintro _ ⟨⟩
    · exact ok _

theorem number : Unstopped (Guard.number text) := by
  intro position h
  simp only [number_eq, unsigned] at h
  split at h <;> split at h <;> cases h

theorem quotedText : Unstopped (Guard.quotedText text) := by
  simp only [Guard.quotedText]
  split
  · rintro _ ⟨⟩
  · exact ok _

theorem constant : Unstopped (Guard.constant text) := by
  simp only [Guard.constant]
  split
  case h_1 => exact ok _
  split
  case h_1 => exact ok _
  split
  case h_1 => exact ok _
  split
  case h_1 => exact quotedText.map _
  refine number.bind fun r => ?_
  split
  · rintro _ ⟨⟩
  · exact ok _

theorem comparison : Unstopped (Guard.comparison text) := by
  refine field.bind fun (path, rest) => ?_
  dsimp only
  split
  · exact constant.bind fun _ => ok _
  · exact constant.bind fun _ => ok _
  · exact number.bind fun _ => ok _
  · exact ok _

variable {e operand : Parser Guard}

theorem primary (he : ∀ text, Unstopped (e text)) : Unstopped (Guard.primary e text) := by
  simp only [Guard.primary]
  split
  · refine (he _).bind fun r => ?_
    obtain ⟨g, rest⟩ := r
    dsimp only
    split
    · exact ok _
    · rintro _ ⟨⟩
  · exact comparison

theorem unary (he : ∀ text, Unstopped (e text)) (fuel : Nat) : Unstopped (Guard.unary e fuel text) := by
  induction fuel generalizing text with
  | zero => exact primary he
  | succ fuel ih =>
      simp only [Guard.unary]
      split
      · exact ih.bind fun _ => ok _
      · exact primary he

theorem chain {token : List Char} {join : Guard → Guard → Guard} (hoperand : ∀ text, Unstopped (operand text))
    {n : Nat} {left : Guard} : Unstopped (Guard.chain token join operand n left text) := by
  induction n generalizing left text with
  | zero => exact ok _
  | succ n ih =>
      simp only [Guard.chain]
      split
      · exact (hoperand _).bind fun _ => ih
      · exact ok _

theorem chained {token : List Char} {join : Guard → Guard → Guard} (hoperand : ∀ text, Unstopped (operand text)) :
    Unstopped (Guard.chained token join operand text) :=
  (hoperand text).bind fun _ => chain hoperand

theorem expression (n : Nat) (text : List Char) : Unstopped (Guard.expression n text) := by
  induction n generalizing text with
  | zero => exact nofun
  | succ n ih => exact chained fun _ => chained fun text => unary ih text.length

end Unstopped

/-! ## Positions -/

theorem trimStart_length_mono {a b : List Char} (h : a <:+ b) :
    (Text.trimStart a).length ≤ (Text.trimStart b).length := by
  obtain ⟨front, rfl⟩ := h
  induction front with
  | nil => exact Nat.le_refl _
  | cons c front ih =>
      rw [List.cons_append]
      cases hc : isBlank c with
      | true => simpa [Text.trimStart, hc] using ih
      | false =>
          have hle := trimStart_length_le a
          rw [trimStart_cons hc]
          simp only [List.length_cons, List.length_append]
          omega

theorem utf8ByteSize_ofList (text : List Char) : (String.ofList text).utf8ByteSize = byteLength text := by
  induction text with
  | nil => rfl
  | cons c text ih => simp [byteLength, ← ih]

/-- A text is rejected at a position when a guard has been read from it and there is more. -/
theorem parse_stopped {text : String} {position : Nat} (h : parse text = .error (.unexpectedInput position)) :
    ∃ g rest, expression ((Text.trim text.toList).length + 1) (Text.trim text.toList) = .ok (g, rest) ∧
      Text.trimStart rest ≠ [] ∧
      position = byteLength (Text.trim text.toList) - byteLength (Text.trimStart rest) := by
  simp only [parse] at h
  split at h
  case h_1 => cases h
  case h_2 c t htrim =>
    rw [htrim]
    simp only [ofTrimmed] at h
    cases hread : expression ((c :: t).length + 1) (c :: t) with
    | error e =>
        rw [hread] at h
        cases h
        exact absurd hread (Unstopped.expression _ _ position)
    | ok r =>
        obtain ⟨g, rest⟩ := r
        rw [hread] at h
        simp only [bind, Except.bind] at h
        split at h
        · cases h
        · next hrest =>
          cases h
          exact ⟨g, rest, rfl, by simpa using hrest, rfl⟩

theorem byteLength_append (a b : List Char) : byteLength (a ++ b) = byteLength a + byteLength b := by
  simp [← utf8ByteSize_ofList]

/-- A guard that the text begins with ends where the reader stops, at the latest. -/
theorem Derives.ends_within {text s behind rest : List Char} {g g' : Guard} {n : Nat} (h : Derives .or s g')
    (htext : text = s ++ behind) (hn : text.length ≤ n) (hread : expression (n + 1) text = .ok (g, rest)) :
    (Text.trimStart rest).length ≤ (Text.trimStart behind).length := by
  obtain ⟨lead, t, trail, -, -, -, hrest⟩ := expression_sound _ hread
  have hlength : s.length ≤ n := by
    rw [htext, List.length_append] at hn
    omega
  have hle : rest.length ≤ behind.length := h.exceeded hlength Gap.nil (by rw [htext] at hread; exact hread)
  have hbehind : behind <:+ text := ⟨s, htext.symm⟩
  have hsuffix : rest <:+ text := ⟨lead ++ t ++ trail, hrest.symm⟩
  exact trimStart_length_mono (List.suffix_of_suffix_length_le hsuffix hbehind hle)

theorem exists_gaps (text : List Char) :
    ∃ lead trail, Gap lead ∧ Gap trail ∧ text = lead ++ Text.trim text ++ trail := by
  obtain ⟨lead, hlead, hstart⟩ := exists_gap text
  obtain ⟨b, hb, hend⟩ := exists_gap (Text.trimStart text).reverse
  refine ⟨lead, b.reverse, hlead, fun c hc => hb c (List.mem_reverse.1 hc), ?_⟩
  have htrim : Text.trimStart text = Text.trim text ++ b.reverse := by
    rw [← List.reverse_reverse (Text.trimStart text), hend, List.reverse_append]
    rfl
  rw [List.append_assoc, ← htrim, ← hstart]

/-- A front of a trimmed text that is a guard ends where the reader stops, at the latest. -/
theorem longer_ends {text longer : String} {g g' : Guard} {rest behind : List Char} (h : parse longer = .ok g')
    (hsplit : Text.trim text.toList = longer.toList ++ behind)
    (hread : expression ((Text.trim text.toList).length + 1) (Text.trim text.toList) = .ok (g, rest)) :
    (Text.trimStart rest).length ≤ behind.length := by
  have hs := parse_sound h
  obtain ⟨lead, trail, hlead, htrail, hlonger⟩ := exists_gaps longer.toList
  generalize Text.trim longer.toList = s at hs hlonger
  rw [hlonger] at hsplit
  obtain rfl : lead = [] := hlead.eq_nil_of_trim (by rw [hsplit, List.append_assoc, List.append_assoc])
  rw [List.nil_append, List.append_assoc] at hsplit
  have hends := hs.ends_within hsplit (Nat.le_refl _) hread
  rw [htrail.trimStart_append] at hends
  exact Nat.le_trans hends (trimStart_length_le behind)

/-- A text that is rejected at a position has a character there, trimmed, and one in front of it at least. What
stands in front of the position is a guard, and no longer front of the trimmed text is one. -/
theorem parse_stops (text : String) (position : Nat) (h : parse text = .error (.unexpectedInput position)) :
    ∃ front behind : String, String.ofList (Text.trim text.toList) = front ++ behind ∧
      front.utf8ByteSize = position ∧ front ≠ "" ∧ behind ≠ "" ∧ (∃ g, parse front = .ok g) ∧
      ∀ longer behind' : String, String.ofList (Text.trim text.toList) = longer ++ behind' →
        position < longer.utf8ByteSize → ∀ g, parse longer ≠ .ok g := by
  obtain ⟨g, rest, hread, hrest, hposition⟩ := parse_stopped h
  obtain ⟨lead, s, b, hlead, hs, hb, htext⟩ := (expression_sound _ hread).trimmed
  obtain rfl : lead = [] := hlead.eq_nil_of_trim (by rw [htext, List.append_assoc, List.append_assoc])
  rw [List.nil_append] at htext
  have hsize : byteLength (s ++ b) = position := by
    rw [hposition, htext, byteLength_append (s ++ b), Nat.add_sub_cancel]
  refine ⟨String.ofList (s ++ b), String.ofList (Text.trimStart rest), ?_, ?_, ?_, ?_, ⟨g, hs.parse hb⟩, ?_⟩
  · rw [htext, String.ofList_append]
  · rw [utf8ByteSize_ofList, hsize]
  · obtain ⟨c, t, rfl, -⟩ := hs.head
    simp
  · simpa using hrest
  · intro longer behind' hlonger hlt g' hparse
    have hsplit : Text.trim text.toList = longer.toList ++ behind'.toList := by
      rw [← String.toList_append, ← hlonger, String.toList_ofList]
    have hbehind : (Text.trimStart rest).length ≤ behind'.toList.length := longer_ends hparse hsplit hread
    have hsuffix : Text.trimStart rest <:+ behind'.toList :=
      List.suffix_of_suffix_length_le ⟨_, htext.symm⟩ ⟨_, hsplit.symm⟩ hbehind
    obtain ⟨more, hmore⟩ := hsuffix
    have hfront : s ++ b = longer.toList ++ more := by
      rw [htext, ← hmore, ← List.append_assoc] at hsplit
      exact List.append_cancel_right hsplit
    rw [← String.ofList_toList (s := longer), utf8ByteSize_ofList] at hlt
    rw [hfront, byteLength_append] at hsize
    omega

/-- A letter of three bytes stands in front of the position, and another guard behind it. -/
theorem price_stops : parse " ctx.価 ctx.b " = .error (.unexpectedInput 8) ∧
    ∃ front behind : String, "ctx.価 ctx.b" = front ++ behind ∧ front.utf8ByteSize = 8 ∧ (∃ g, parse front = .ok g) ∧
      ∀ g, parse "ctx.価 ctx.b" ≠ .ok g := by
  have h : parse " ctx.価 ctx.b " = .error (.unexpectedInput 8) := by decide +kernel
  have htrim : String.ofList (Text.trim " ctx.価 ctx.b ".toList) = "ctx.価 ctx.b" := by decide +kernel
  obtain ⟨front, behind, htext, hsize, -, -, hfront, hlonger⟩ := parse_stops _ _ h
  rw [htrim] at htext hlonger
  exact ⟨h, front, behind, htext, hsize, hfront, hlonger "ctx.価 ctx.b" "" (by simp) (by decide +kernel)⟩

end Workflow.Guard
