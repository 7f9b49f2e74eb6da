import Workflow.Proofs.Guard.Tokens
import Workflow.Proofs.Results

/-!
# What is read is of the grammar

Each reader of expressions takes from the front of a text an expression of its level, and gives the tree of it.
-/

namespace Workflow.Guard

open Text (isBlank)

/-- What was read from the front of a text is an expression, perhaps between gaps. -/
def Reads (level : Level) (text : List Char) (g : Guard) (rest : List Char) : Prop :=
  ∃ lead s trail, Gap lead ∧ Derives level s g ∧ Gap trail ∧ text = lead ++ s ++ trail ++ rest

def Sound (level : Level) (p : Parser Guard) : Prop :=
  ∀ ⦃text g rest⦄, p text = .ok (g, rest) → Reads level text g rest

namespace Reads

variable {level outer inner : Level} {text rest : List Char} {g : Guard}

theorem of_trimStart (h : Reads level (Text.trimStart text) g rest) : Reads level text g rest := by
  obtain ⟨b, hb, htext⟩ := exists_gap text
  obtain ⟨lead, s, trail, hlead, hs, htrail, htrim⟩ := h
  exact ⟨b ++ lead, s, trail, Gap.append_iff.2 ⟨hb, hlead⟩, hs, htrail, by rw [htext, htrim]; simp⟩

theorem trimmed (h : Reads level text g rest) : Reads level text g (Text.trimStart rest) := by
  obtain ⟨b, hb, hrest⟩ := exists_gap rest
  obtain ⟨lead, s, trail, hlead, hs, htrail, htext⟩ := h
  refine ⟨lead, s, trail ++ b, hlead, hs, Gap.append_iff.2 ⟨htrail, hb⟩, ?_⟩
  rw [htext]
  conv_lhs => rw [hrest]
  simp

theorem raise (h : Reads inner text g rest) (hraise : ∀ {s}, Derives inner s g → Derives outer s g) :
    Reads outer text g rest := by
  obtain ⟨lead, s, trail, hlead, hs, htrail, htext⟩ := h
  exact ⟨lead, s, trail, hlead, hraise hs, htrail, htext⟩

theorem length_le (h : Reads level text g rest) : rest.length ≤ text.length := by
  obtain ⟨lead, s, trail, -, -, -, rfl⟩ := h
  rw [List.length_append]
  omega

end Reads

def Operator.text : Operator → List Char
  | .equals => ['=', '=']
  | .differs => ['!', '=']
  | .compare op => op.text

theorem operator?_eq_some {text rest : List Char} {op : Operator} (h : operator? text = some (op, rest)) :
    text = op.text ++ rest := by
  simp only [operator?] at h
  split at h <;> cases h <;> rfl

theorem comparison_sound : Sound .unary comparison := by
  intro text g rest h
  obtain ⟨⟨p, behind⟩, hfield, hrest⟩ := bind_eq_ok.1 h
  obtain ⟨hp, rfl, -⟩ := field_eq_ok.1 hfield
  obtain ⟨b, hb, hbehind⟩ := exists_gap behind
  dsimp only at hrest
  rw [hbehind]
  cases hop : operator? (Text.trimStart behind) with
  | none =>
      simp only [hop] at hrest
      cases hrest
      exact ⟨[], p.text, b, Gap.nil, .truthy hp, hb, by simp⟩
  | some r =>
      obtain ⟨op, operand⟩ := r
      rw [operator?_eq_some hop]
      simp only [hop] at hrest
      cases op with
      | equals =>
          obtain ⟨⟨c, behind⟩, hconstant, heq⟩ := bind_eq_ok.1 hrest
          cases heq
          obtain ⟨b', s, hb', hs, rfl⟩ := constant_sound hconstant
          exact ⟨[], _, [], Gap.nil, .equals hp hb hb' hs, Gap.nil, by simp [Operator.text]⟩
      | differs =>
          obtain ⟨⟨c, behind⟩, hconstant, heq⟩ := bind_eq_ok.1 hrest
          cases heq
          obtain ⟨b', s, hb', hs, rfl⟩ := constant_sound hconstant
          exact ⟨[], _, [], Gap.nil, .differs hp hb hb' hs, Gap.nil, by simp [Operator.text]⟩
      | compare op =>
          obtain ⟨⟨x, behind⟩, hnumber, heq⟩ := bind_eq_ok.1 hrest
          cases heq
          obtain ⟨b', s, hb', hs, rfl, -⟩ := number_eq_ok.1 hnumber
          exact ⟨[], _, [], Gap.nil, .compare op hp hb hb' hs, Gap.nil, by simp [Operator.text]⟩

theorem primary_sound {p : Parser Guard} (hp : Sound .or p) : Sound .unary (primary p) := by
  intro text g rest h
  simp only [primary] at h
  split at h
  case h_1 behind =>
    obtain ⟨⟨g', behind⟩, hexpression, hclose⟩ := bind_eq_ok.1 h
    obtain ⟨lead, s, trail, hlead, hs, htrail, rfl⟩ := hp hexpression
    obtain ⟨b, hb, hbehind⟩ := exists_gap behind
    split at hclose
    · next htrim =>
      dsimp only at htrim
      cases hclose
      refine ⟨[], _, [], Gap.nil, .group hlead hs (Gap.append_iff.2 ⟨htrail, hb⟩), Gap.nil, ?_⟩
      rw [hbehind, htrim]
      simp
    · cases hclose
  case h_2 => exact comparison_sound h

theorem bang?_eq_some {text rest : List Char} (h : bang? text = some rest) : text = '!' :: rest := by
  simp only [bang?] at h
  split at h <;> cases h
  rfl

theorem unary_sound {p : Parser Guard} (hp : Sound .or p) (fuel : Nat) : Sound .unary (unary p fuel) := by
  induction fuel with
  | zero => exact fun _ _ _ h => (primary_sound hp h).of_trimStart
  | succ fuel ih =>
      intro text g rest h
      refine Reads.of_trimStart ?_
      simp only [unary] at h
      split at h
      case h_1 behind hbang =>
        obtain ⟨⟨g', rest'⟩, hunary, h⟩ := bind_eq_ok.1 h
        cases h
        obtain ⟨lead, s, trail, hlead, hs, htrail, rfl⟩ := ih hunary
        exact ⟨[], _, trail, Gap.nil, .not hlead hs, htrail, by rw [bang?_eq_some hbang]; simp⟩
      case h_2 => exact primary_sound hp h

section Chains

variable {outer inner : Level} {token : List Char} {join : Guard → Guard → Guard} {operand : Parser Guard}

theorem chain_sound (hoperand : Sound inner operand)
    (hjoin : ∀ {s b b' t l r}, Derives outer s l → Gap b → Gap b' → Derives inner t r →
      Derives outer (s ++ b ++ token ++ b' ++ t) (join l r))
    {n : Nat} {text behind rest : List Char} {left g : Guard} (hleft : Reads outer text left behind)
    (h : chain token join operand n left behind = .ok (g, rest)) : Reads outer text g rest := by
  induction n generalizing left behind with
  | zero =>
      cases h
      exact hleft.trimmed
  | succ n ih =>
      simp only [chain] at h
      split at h
      case h_1 next htoken =>
        obtain ⟨⟨right, behind'⟩, hright, h⟩ := bind_eq_ok.1 h
        obtain ⟨lead, s, trail, hlead, hs, htrail, rfl⟩ := hleft.trimmed
        obtain ⟨b', t, trail', hb', ht, htrail', hnext⟩ := hoperand hright
        refine ih ⟨lead, _, trail', hlead, hjoin hs htrail hb' ht, htrail', ?_⟩ h
        rw [token?_eq_some.1 htoken, hnext]
        simp
      case h_2 =>
        cases h
        exact hleft.trimmed

theorem chained_sound (hoperand : Sound inner operand)
    (hraise : ∀ {s g}, Derives inner s g → Derives outer s g)
    (hjoin : ∀ {s b b' t l r}, Derives outer s l → Gap b → Gap b' → Derives inner t r →
      Derives outer (s ++ b ++ token ++ b' ++ t) (join l r)) :
    Sound outer (chained token join operand) := by
  intro text g rest h
  obtain ⟨⟨left, behind⟩, hleft, h⟩ := bind_eq_ok.1 h
  exact chain_sound hoperand hjoin ((hoperand hleft).raise hraise) h

end Chains

/-- The operands of a conjunction whose parentheses are nested less deep than the first argument. -/
def operand (n : Nat) : Parser Guard := fun text =>
  unary (expression n) text.length text

def conjunction (n : Nat) : Parser Guard :=
  chained ['&', '&'] .and (operand n)

theorem conjunction_sound {n : Nat} (h : Sound .or (expression n)) : Sound .and (conjunction n) :=
  chained_sound (fun _ _ _ hunary => unary_sound h _ hunary) .unary .and

theorem expression_sound (n : Nat) : Sound .or (expression n) := by
  induction n with
  | zero => exact fun _ _ _ h => nomatch h
  | succ n ih => exact chained_sound (conjunction_sound ih) .conjunction .or

end Workflow.Guard
