import Workflow.Proofs.Guard.Soundness

/-!
# The language of guards

The texts that can be read as guards are those of the grammar, each with its one tree. An expression is read to its
end where a token of its follow set, or nothing, stands behind it.
-/

namespace Workflow.Guard

open Text (isBlank)

/-! ## Follow sets -/

/-- What may stand behind an expression of a level in one of a higher level. -/
def Level.closers : Level → List Char
  | .unary => ['&', '|', ')']
  | .and => ['|', ')']
  | .or => [')']

def Follows (level : Level) (rest : List Char) : Prop :=
  ∀ c ∈ (Text.trimStart rest).head?, c ∈ level.closers

theorem Ends.mono {kind kind' : Char → Bool} {rest : List Char} (h : Ends kind rest)
    (hkind : ∀ c, kind' c → kind c) : Ends kind' rest := by
  intro c hc
  cases hc' : kind' c with
  | false => rfl
  | true => exact absurd (hkind c hc') (by simp [h c hc])

theorem Gap.ends {kind : Char → Bool} {b rest : List Char} (hb : Gap b)
    (hkind : ∀ {c}, isBlank c → kind c = false) (h : Ends kind rest) : Ends kind (b ++ rest) := by
  cases b with
  | nil => exact h
  | cons c b =>
      rintro _ ⟨⟩
      exact hkind (hb c (List.mem_cons_self ..))

theorem beq_equals_of_isBlank {c : Char} (h : isBlank c) : (c == '=') = false := by
  rw [beq_eq_false_iff_ne]
  rintro rfl
  exact absurd h (by decide)

namespace Follows

variable {level : Level} {b rest : List Char} {c : Char}

@[simp] theorem nil : Follows level [] := by simp [Follows, Text.trimStart]

theorem token (hb : Gap b) (hc : c ∈ level.closers) (hblank : isBlank c = false) :
    Follows level (b ++ c :: rest) := by
  simpa [Follows, hb.trimStart_append, trimStart_cons hblank] using hc

theorem unary (h : Follows .and rest) : Follows .unary rest :=
  fun c hc => List.mem_cons_of_mem _ (h c hc)

theorem and (h : Follows .or rest) : Follows .and rest :=
  fun c hc => List.mem_cons_of_mem _ (h c hc)

theorem cases (h : Follows level rest) :
    Gap rest ∨ ∃ b c t, Gap b ∧ c ∈ level.closers ∧ rest = b ++ c :: t ∧ Text.trimStart rest = c :: t := by
  obtain ⟨b, hb, hrest⟩ := exists_gap rest
  cases htrim : Text.trimStart rest with
  | nil => exact .inl (Gap.of_trimStart htrim)
  | cons c t => exact .inr ⟨b, c, t, hb, h c (by simp [htrim]), by rw [hrest, htrim], rfl⟩

theorem ends (h : Follows .unary rest) : Ends isPathChar rest := by
  rcases h.cases with hgap | ⟨b, c, t, hb, hc, rfl, -⟩
  · have hends : Ends isPathChar (rest ++ []) := hgap.ends isPathChar_of_isBlank nofun
    simpa using hends
  · refine hb.ends isPathChar_of_isBlank fun d hd => ?_
    cases hd
    revert hc
    simp only [Level.closers, List.mem_cons, List.not_mem_nil, or_false]
    rintro (rfl | rfl | rfl) <;> decide

theorem number (h : Follows .unary rest) : Ends isNumberChar rest :=
  h.ends.mono fun _ => isPathChar_of_isNumberChar

end Follows

/-! ## Heads of expressions -/

theorem Path.head (p : Path) : ∃ c t, p.text = c :: t ∧ (c = 'c' ∨ c = 'u') := by
  obtain ⟨root, parts⟩ := p
  cases root
  · exact ⟨'c', _, rfl, .inl rfl⟩
  · exact ⟨'u', _, rfl, .inr rfl⟩

theorem Derives.head {level : Level} {s : List Char} {g : Guard} (h : Derives level s g) :
    ∃ c t, s = c :: t ∧ c ∈ ['!', '(', 'c', 'u'] := by
  induction h with
  | @truthy p =>
      obtain ⟨c, t, hp, hc⟩ := p.head
      exact ⟨c, t, hp, by simp [hc]⟩
  | @equals p | @differs p | @compare p =>
      obtain ⟨c, t, hp, hc⟩ := p.head
      exact ⟨c, _, by rw [hp]; rfl, by simp [hc]⟩
  | not => exact ⟨_, _, rfl, by simp⟩
  | group => exact ⟨_, _, rfl, by simp⟩
  | unary _ ih | conjunction _ ih => exact ih
  | and _ _ _ _ ih | or _ _ _ _ ih =>
      obtain ⟨c, t, rfl, hc⟩ := ih
      exact ⟨c, _, rfl, hc⟩

theorem Numeral.ends {b s rest : List Char} {x : Binary64} (h : Numeral s x) (hb : Gap b) :
    Ends (· == '=') (b ++ s ++ rest) := by
  obtain ⟨c, t, rfl, -, hc⟩ := h.head
  rw [List.append_assoc]
  refine hb.ends beq_equals_of_isBlank ?_
  rintro _ ⟨⟩
  rw [beq_eq_false_iff_ne]
  rintro rfl
  revert hc
  decide

theorem Literal.ends {b s rest : List Char} {c : Constant} (h : Literal s c) (hb : Gap b) :
    Ends (· == '=') (b ++ s ++ rest) := by
  cases h with
  | number hx => exact hx.ends hb
  | _ =>
      rw [List.append_assoc]
      refine hb.ends beq_equals_of_isBlank ?_
      rintro _ ⟨⟩
      decide

theorem Derives.ends {level : Level} {s rest : List Char} {g : Guard} (h : Derives level s g) :
    Ends (· == '=') (s ++ rest) := by
  obtain ⟨c, t, rfl, hc⟩ := h.head
  rintro _ ⟨⟩
  simp only [List.mem_cons, List.not_mem_nil, or_false] at hc
  rcases hc with rfl | rfl | rfl | rfl <;> decide

theorem bang?_cons {rest : List Char} (h : Ends (· == '=') rest) : bang? ('!' :: rest) = some rest := by
  cases rest with
  | nil => rfl
  | cons c rest =>
      have hc : c ≠ '=' := by simpa using h c rfl
      simp [bang?, hc]

/-! ## Operands -/

/-- An expression is read wherever it stands before something that may follow it. -/
def Completes (p : Parser Guard) (level : Level) (s : List Char) (g : Guard) : Prop :=
  ∀ ⦃lead rest⦄, Gap lead → Follows level rest →
    ∃ rest', p (lead ++ s ++ rest) = .ok (g, rest') ∧ Text.trimStart rest' = Text.trimStart rest

theorem operator?_text {op : Operator} {rest : List Char} (h : Ends (· == '=') rest) :
    operator? (op.text ++ rest) = some (op, rest) := by
  cases rest with
  | nil =>
      cases op with
      | compare op => cases op <;> rfl
      | _ => rfl
  | cons c rest =>
      have hc : c ≠ '=' := by simpa using h c rfl
      cases op with
      | compare op => cases op <;> simp [Operator.text, Comparison.text, operator?, hc]
      | _ => rfl

theorem token?_of_follows {level : Level} {c : Char} {token rest : List Char} (h : Follows level rest)
    (hc : c ∉ level.closers) : token? (c :: token) (Text.trimStart rest) = none := by
  cases htrim : Text.trimStart rest with
  | nil => rfl
  | cons d t =>
      refine token?_cons_of_ne ?_
      rintro rfl
      exact hc (h c (by simp [htrim]))

theorem operator?_of_follows {rest : List Char} (h : Follows .unary rest) :
    operator? (Text.trimStart rest) = none := by
  rcases h.cases with hgap | ⟨b, c, t, -, hc, -, htrim⟩
  · have htrim : Text.trimStart rest = [] := List.dropWhile_eq_nil_iff.2 hgap
    simp [htrim, operator?]
  · rw [htrim]
    simp only [Level.closers, List.mem_cons, List.not_mem_nil, or_false] at hc
    rcases hc with rfl | rfl | rfl <;> rfl

theorem Operator.ends (op : Operator) (rest : List Char) : Ends isPathChar (op.text ++ rest) := by
  cases op with
  | compare op => cases op <;> rintro _ ⟨⟩ <;> decide
  | _ => rintro _ ⟨⟩; decide

theorem comparison_truthy {p : Path} (hp : p.IsField) {rest : List Char} (h : Follows .unary rest) :
    comparison (p.text ++ rest) = .ok (.truthy p, Text.trimStart rest) := by
  have hfield : field (p.text ++ rest) = .ok (p, rest) := field_eq_ok.2 ⟨hp, rfl, h.ends⟩
  simp [comparison, hfield, bind, Except.bind, operator?_of_follows h, pure, Except.pure]

theorem comparison_operator {p : Path} (hp : p.IsField) {b rest : List Char} (hb : Gap b) (op : Operator)
    (h : Ends (· == '=') rest) :
    comparison (p.text ++ (b ++ (op.text ++ rest))) = match op with
      | .equals => (fun r => (.equals p r.1, r.2)) <$> constant rest
      | .differs => (fun r => (.differs p r.1, r.2)) <$> constant rest
      | .compare op => (fun r => (.compare op p r.1, r.2)) <$> number rest := by
  have hfield : field (p.text ++ (b ++ (op.text ++ rest))) = .ok (p, b ++ (op.text ++ rest)) :=
    field_eq_ok.2 ⟨hp, rfl, hb.ends isPathChar_of_isBlank (op.ends rest)⟩
  have htrim : Text.trimStart (b ++ (op.text ++ rest)) = op.text ++ rest := by
    rw [hb.trimStart_append]
    cases op with
    | compare op => cases op <;> rfl
    | _ => rfl
  simp only [comparison, hfield, bind, Except.bind, htrim, operator?_text h]
  cases op <;> rfl

theorem unary_eq_primary {e : Parser Guard} {lead rest : List Char} {c : Char} (hlead : Gap lead)
    (hblank : isBlank c = false) (hc : c ≠ '!') (fuel : Nat) :
    unary e fuel (lead ++ c :: rest) = primary e (c :: rest) := by
  have htrim : Text.trimStart (lead ++ c :: rest) = c :: rest := by
    rw [hlead.trimStart_append, trimStart_cons hblank]
  have hbang : bang? (c :: rest) = none := by
    simp only [bang?]
    split <;> simp_all
  cases fuel <;> simp [unary, htrim, hbang]

theorem unary_path {e : Parser Guard} {lead rest : List Char} (hlead : Gap lead) (p : Path) (fuel : Nat) :
    unary e fuel (lead ++ (p.text ++ rest)) = comparison (p.text ++ rest) := by
  obtain ⟨c, t, hp, rfl | rfl⟩ := p.head
  · rw [hp, List.cons_append, unary_eq_primary hlead (by decide) (by decide)]
    rfl
  · rw [hp, List.cons_append, unary_eq_primary hlead (by decide) (by decide)]
    rfl

theorem unary_not {e : Parser Guard} {lead b s rest : List Char} (hlead : Gap lead) (hb : Gap b)
    (hs : Ends (· == '=') (s ++ rest)) (fuel : Nat) :
    unary e (fuel + 1) (lead ++ ('!' :: b ++ s) ++ rest) =
      (fun r => (.not r.1, r.2)) <$> unary e fuel (b ++ s ++ rest) := by
  have htext : Text.trimStart (lead ++ ('!' :: b ++ s) ++ rest) = '!' :: (b ++ s ++ rest) := by
    rw [List.append_assoc, hlead.trimStart_append]
    rfl
  have hbang : bang? ('!' :: (b ++ s ++ rest)) = some (b ++ s ++ rest) := by
    rw [List.append_assoc]
    exact bang?_cons (hb.ends beq_equals_of_isBlank hs)
  simp only [unary, htext, hbang]
  rfl

/-- What stands behind the closing parenthesis of a group does not matter. -/
theorem unary_group {e : Parser Guard} {lead b s b' rest : List Char} {g : Guard} (hlead : Gap lead) (hb : Gap b)
    (hb' : Gap b') (h : Completes e .or s g) (fuel : Nat) :
    unary e fuel (lead ++ ('(' :: b ++ s ++ b' ++ [')']) ++ rest) = .ok (g, rest) := by
  have hclose : Follows .or (b' ++ ')' :: rest) := .token hb' (by simp [Level.closers]) (by decide)
  obtain ⟨rest', hread, htrim⟩ := h hb hclose
  rw [hb'.trimStart_append, trimStart_cons (by decide)] at htrim
  calc unary e fuel (lead ++ ('(' :: b ++ s ++ b' ++ [')']) ++ rest)
      = unary e fuel (lead ++ '(' :: (b ++ s ++ (b' ++ ')' :: rest))) := by simp
    _ = primary e ('(' :: (b ++ s ++ (b' ++ ')' :: rest))) :=
        unary_eq_primary hlead (by decide) (by decide) fuel
    _ = .ok (g, rest) := by
        simp only [primary, hread, bind, Except.bind, htrim]
        rfl

/-! ## Chains -/

section Chains

variable {token : List Char} {join : Guard → Guard → Guard} {operand : Parser Guard}

theorem chain_stop {left : Guard} {text : List Char} (h : token? token (Text.trimStart text) = none) (n : Nat) :
    chain token join operand n left text = .ok (left, Text.trimStart text) := by
  cases n <;> simp [chain, h]

/-- A chain does not depend on the gap before its next token, nor on its fuel if that is enough. -/
theorem chain_congr (htoken : token ≠ [])
    (hoperand : ∀ {text g rest}, operand text = .ok (g, rest) → rest.length ≤ text.length) {n m : Nat}
    {left : Guard} {a b : List Char} (hab : Text.trimStart a = Text.trimStart b)
    (hn : (Text.trimStart a).length ≤ n) (hm : (Text.trimStart a).length ≤ m) :
    chain token join operand n left a = chain token join operand m left b := by
  cases htoken? : token? token (Text.trimStart a) with
  | none => rw [chain_stop htoken?, chain_stop (hab ▸ htoken?), hab]
  | some next =>
      have hlength : next.length < (Text.trimStart a).length := by
        have := List.length_pos_of_ne_nil htoken
        rw [token?_eq_some.1 htoken?, List.length_append]
        omega
      obtain ⟨n, rfl⟩ : ∃ k, n = k + 1 := ⟨n - 1, by omega⟩
      obtain ⟨m, rfl⟩ : ∃ k, m = k + 1 := ⟨m - 1, by omega⟩
      simp only [chain, htoken?, hab ▸ htoken?]
      cases hright : operand next with
      | error e => rfl
      | ok r =>
          obtain ⟨right, behind⟩ := r
          have hle := hoperand hright
          have hle' := trimStart_length_le behind
          change chain token join operand n (join left right) behind =
            chain token join operand m (join left right) behind
          exact chain_congr htoken hoperand rfl (by omega) (by omega)
termination_by n

/-- A chain is read up to the end of an expression in it, whatever stands behind that may follow its operands. -/
def Reaches (token : List Char) (join : Guard → Guard → Guard) (operand : Parser Guard) (level : Level)
    (s : List Char) (g : Guard) : Prop :=
  ∀ ⦃lead rest⦄, Gap lead → Follows level rest →
    chained token join operand (lead ++ s ++ rest) = chain token join operand rest.length g rest

namespace Reaches

variable {inner outer : Level} {s t b b' : List Char} {l r g : Guard}

theorem single (htoken : token ≠ []) (hoperand : Sound inner operand) (h : Completes operand inner s g) :
    Reaches token join operand inner s g := by
  intro lead rest hlead hrest
  obtain ⟨rest', hread, htrim⟩ := h hlead hrest
  have hle := trimStart_length_le rest
  have hle' := trimStart_length_le rest'
  simp only [chained, hread, bind, Except.bind]
  exact chain_congr htoken (fun h => (hoperand h).length_le) htrim hle' (htrim ▸ hle)

theorem append {c : Char} {tail : List Char} (htoken : token = c :: tail) (hblank : isBlank c = false)
    (hc : c ∈ inner.closers) (hoperand : Sound inner operand) (hs : Reaches token join operand inner s l)
    (hb : Gap b) (hb' : Gap b') (ht : Completes operand inner t r) :
    Reaches token join operand inner (s ++ b ++ token ++ b' ++ t) (join l r) := by
  intro lead rest hlead hrest
  obtain ⟨rest', hread, htrim⟩ := ht hb' hrest
  have hbehind : Text.trimStart (b ++ (token ++ (b' ++ t ++ rest))) = token ++ (b' ++ t ++ rest) := by
    rw [hb.trimStart_append, htoken, List.cons_append, trimStart_cons hblank]
  have hfollows : Follows inner (b ++ (token ++ (b' ++ t ++ rest))) := by
    rw [htoken]
    exact .token hb hc hblank
  have htoken? : token? token (token ++ (b' ++ t ++ rest)) = some (b' ++ t ++ rest) := token?_eq_some.2 rfl
  obtain ⟨n, hn, hle⟩ : ∃ n, (b ++ (token ++ (b' ++ t ++ rest))).length = n + 1 ∧ rest.length ≤ n := by
    simp only [htoken, List.length_append, List.length_cons]
    exact ⟨b.length + (tail.length + (b'.length + t.length + rest.length)), by omega, by omega⟩
  have hlength : (Text.trimStart rest').length ≤ rest.length := htrim ▸ trimStart_length_le rest
  calc chained token join operand (lead ++ (s ++ b ++ token ++ b' ++ t) ++ rest)
      = chained token join operand (lead ++ s ++ (b ++ (token ++ (b' ++ t ++ rest)))) := by simp
    _ = chain token join operand (n + 1) l (b ++ (token ++ (b' ++ t ++ rest))) := by rw [hs hlead hfollows, hn]
    _ = chain token join operand n (join l r) rest' := by
        simp only [chain, hbehind, htoken?, hread, bind, Except.bind]
    _ = chain token join operand rest.length (join l r) rest :=
        chain_congr (by simp [htoken]) (fun h => (hoperand h).length_le) htrim (by omega) (by omega)

theorem completes (h : Reaches token join operand inner s g)
    (hfollows : ∀ {rest}, Follows outer rest →
      Follows inner rest ∧ token? token (Text.trimStart rest) = none) :
    Completes (chained token join operand) outer s g := by
  intro lead rest hlead hrest
  obtain ⟨hinner, hnone⟩ := hfollows hrest
  exact ⟨Text.trimStart rest, by rw [h hlead hinner, chain_stop hnone], trimStart_trimStart rest⟩

end Reaches

end Chains

/-! ## Every expression is read -/

theorem operand_sound (n : Nat) : Sound .unary (operand n) :=
  fun _ _ _ h => unary_sound (expression_sound n) _ h

/-- What an induction on the grammar shows of the expressions of each level. -/
def Readable : Level → List Char → Guard → Prop
  | .unary, s, g => ∀ {n fuel}, s.length ≤ n → s.length ≤ fuel →
      Completes (unary (expression n) fuel) .unary s g
  | .and, s, g => ∀ {n}, s.length ≤ n → Reaches ['&', '&'] .and (operand n) .unary s g
  | .or, s, g => ∀ {n}, s.length ≤ n → Reaches ['|', '|'] .or (conjunction n) .and s g

namespace Readable

variable {b b' s t : List Char} {l r g : Guard}

theorem operand {n : Nat} (h : Readable .unary s g) (hn : s.length ≤ n) : Completes (operand n) .unary s g := by
  intro lead rest hlead hrest
  refine h hn ?_ hlead hrest
  simp only [List.length_append]
  omega

theorem conjunction {n : Nat} (h : Readable .and s g) (hn : s.length ≤ n) :
    Completes (conjunction n) .and s g :=
  (h hn).completes fun hrest => ⟨hrest.unary, token?_of_follows hrest (by simp [Level.closers])⟩

theorem expression {n : Nat} (h : Readable .or s g) (hn : s.length ≤ n) :
    Completes (expression (n + 1)) .or s g :=
  (h hn).completes fun hrest => ⟨hrest.and, token?_of_follows hrest (by simp [Level.closers])⟩

theorem comparison {p : Path} (op : Operator)
    (h : ∀ {rest}, Follows .unary rest →
      Guard.comparison (p.text ++ (b ++ (op.text ++ (b' ++ s ++ rest)))) = .ok (g, rest)) :
    Readable .unary (p.text ++ b ++ op.text ++ b' ++ s) g := by
  intro n fuel _ _ lead rest hlead hrest
  refine ⟨rest, ?_, rfl⟩
  calc unary (Guard.expression n) fuel (lead ++ (p.text ++ b ++ op.text ++ b' ++ s) ++ rest)
      = unary (Guard.expression n) fuel (lead ++ (p.text ++ (b ++ (op.text ++ (b' ++ s ++ rest))))) := by simp
    _ = Guard.comparison (p.text ++ (b ++ (op.text ++ (b' ++ s ++ rest)))) := unary_path hlead p fuel
    _ = .ok (g, rest) := h hrest

theorem not (hb : Gap b) (hs : Derives .unary s g) (h : Readable .unary s g) :
    Readable .unary ('!' :: b ++ s) (.not g) := by
  intro n fuel hn hfuel lead rest hlead hrest
  simp only [List.cons_append, List.length_cons, List.length_append] at hn hfuel
  obtain ⟨fuel, rfl⟩ : ∃ k, fuel = k + 1 := ⟨fuel - 1, by omega⟩
  have hn' : s.length ≤ n := by omega
  have hfuel' : s.length ≤ fuel := by omega
  obtain ⟨rest', hread, htrim⟩ := h hn' hfuel' hb hrest
  refine ⟨rest', ?_, htrim⟩
  rw [unary_not hlead hb hs.ends, hread]
  rfl

theorem group (hb : Gap b) (h : Readable .or s g) (hb' : Gap b') :
    Readable .unary ('(' :: b ++ s ++ b' ++ [')']) g := by
  intro n fuel hn hfuel lead rest hlead hrest
  simp only [List.cons_append, List.length_cons, List.length_append] at hn
  obtain ⟨n, rfl⟩ : ∃ k, n = k + 1 := ⟨n - 1, by omega⟩
  exact ⟨rest, unary_group hlead hb hb' (h.expression (by omega)) fuel, rfl⟩

end Readable

theorem Derives.readable {level : Level} {s : List Char} {g : Guard} (h : Derives level s g) :
    Readable level s g := by
  induction h with
  | truthy hp =>
      intro n fuel _ _ lead rest hlead hrest
      refine ⟨_, ?_, trimStart_trimStart rest⟩
      rw [List.append_assoc, unary_path hlead, comparison_truthy hp hrest]
  | equals hp hb hb' hs =>
      refine Readable.comparison .equals fun hrest => ?_
      rw [comparison_operator hp hb .equals (hs.ends hb'), constant_append hb' hs hrest.number]
      rfl
  | differs hp hb hb' hs =>
      refine Readable.comparison .differs fun hrest => ?_
      rw [comparison_operator hp hb .differs (hs.ends hb'), constant_append hb' hs hrest.number]
      rfl
  | compare op hp hb hb' hs =>
      refine Readable.comparison (.compare op) fun hrest => ?_
      rw [comparison_operator hp hb (.compare op) (hs.ends hb'),
        number_eq_ok.2 ⟨_, _, hb', hs, rfl, hrest.number⟩]
      rfl
  | not hb hs ih => exact ih.not hb hs
  | group hb hs hb' ih => exact ih.group hb hb'
  | unary hs ih => exact fun hn => .single (by simp) (operand_sound _) (ih.operand hn)
  | and hs hb hb' ht ihs iht =>
      intro n hn
      simp only [List.length_append] at hn
      exact (ihs (by omega)).append rfl (by decide) (by simp [Level.closers]) (operand_sound n) hb hb'
        (iht.operand (by omega))
  | conjunction hs ih =>
      exact fun hn => .single (by simp) (conjunction_sound (expression_sound _)) (ih.conjunction hn)
  | or hs hb hb' ht ihs iht =>
      intro n hn
      simp only [List.length_append] at hn
      exact (ihs (by omega)).append rfl (by decide) (by simp [Level.closers])
        (conjunction_sound (expression_sound n)) hb hb' (iht.conjunction (by omega))

/-! ## The language -/

theorem parse_sound {text : String} {g : Guard} (h : parse text = .ok g) :
    Derives .or (Text.trim text.toList) g := by
  simp only [parse] at h
  split at h
  case h_1 => cases h
  case h_2 c t htrim =>
    obtain ⟨⟨g', behind⟩, hread, hbehind⟩ := bind_eq_ok.1 h
    obtain ⟨lead, s, trail, hlead, hs, htrail, htext⟩ := expression_sound _ hread
    cases hnil : Text.trimStart behind with
    | cons d t' => simp [hnil] at hbehind
    | nil =>
        have hgap : Gap (trail ++ behind) := Gap.append_iff.2 ⟨htrail, Gap.of_trimStart hnil⟩
        have hg : g' = g := by simpa [hnil, pure, Except.pure] using hbehind
        rw [← htrim] at htext
        have hlead' := hlead.eq_nil_of_trim (by rw [htext, List.append_assoc, List.append_assoc])
        have htrail' := hgap.eq_nil_of_trim_append (by rw [htext, List.append_assoc])
        rw [List.append_assoc, htrail', hlead'] at htext
        simpa [htext, hg] using hs

/-- A text can be read as a guard just when the grammar derives it, trimmed, and the tree of the derivation is
what is read. -/
theorem parse_eq_ok_iff {text : String} {g : Guard} :
    parse text = .ok g ↔ Derives .or (Text.trim text.toList) g := by
  refine ⟨parse_sound, fun h => ?_⟩
  obtain ⟨c, t, htrim, -⟩ := h.head
  obtain ⟨rest', hread, hrest⟩ :=
    Readable.expression h.readable (Nat.le_refl _) Gap.nil (Follows.nil : Follows .or [])
  have hnil : Text.trimStart rest' = [] := hrest
  simp only [List.nil_append, List.append_nil, htrim] at hread
  simp only [parse, htrim, ofTrimmed, hread, bind, Except.bind, hnil, List.isEmpty_nil, if_true]
  rfl

example : parse "!ctx.paid && user.admin || ctx.total >= 10" =
    .ok (.or (.and (.not (.truthy ⟨.ctx, ["paid"]⟩)) (.truthy ⟨.user, ["admin"]⟩))
      (.compare .ge ⟨.ctx, ["total"]⟩ (.ofRatio false 10 1))) := by
  decide +kernel

end Workflow.Guard
