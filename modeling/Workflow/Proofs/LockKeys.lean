import Mathlib.Data.List.Basic
import Workflow.LockKey

/-!
# Fields that share a lock

What a lock key tells of its field. Kind, field and id are hashed with a zero byte between them, and texts may
hold zeros of their own: two fields share a lock where the joined texts are the same, and then they are the same
field only if the zeros in their kinds are as many, and those in the names of the fields.
-/

namespace Workflow

/-! ## Texts as bytes -/

namespace Text

theorem hexDigit_inj {m n : Nat} (hm : m < 16) (hn : n < 16) (h : hexDigit m = hexDigit n) : m = n := by
  have hall : ∀ m n : Fin 16, hexDigit m = hexDigit n → m = n := by decide
  exact congrArg Fin.val (hall ⟨m, hm⟩ ⟨n, hn⟩ h)

theorem byte_inj {b c : UInt8} (hhigh : hexDigit (b.toNat / 16) = hexDigit (c.toNat / 16))
    (hlow : hexDigit (b.toNat % 16) = hexDigit (c.toNat % 16)) : b = c := by
  have hb := b.toNat_lt
  have hc := c.toNat_lt
  have hdiv : b.toNat / 16 = c.toNat / 16 := hexDigit_inj (by omega) (by omega) hhigh
  have hmod : b.toNat % 16 = c.toNat % 16 := hexDigit_inj (by omega) (by omega) hlow
  exact UInt8.toNat_inj.1 (by omega)

theorem hexBytes_injective : Function.Injective hexBytes := by
  intro bytes bytes' h
  replace h := String.ofList_injective h
  induction bytes generalizing bytes' with
  | nil =>
      cases bytes' with
      | nil => rfl
      | cons c bytes' => cases h
  | cons b bytes ih =>
      cases bytes' with
      | nil => cases h
      | cons c bytes' =>
          simp only [List.flatMap_cons, List.cons_append, List.nil_append, List.cons.injEq] at h
          obtain ⟨hhigh, hlow, hrest⟩ := h
          rw [byte_inj hhigh hlow, ih hrest]

theorem toList_eq_data (bytes : ByteArray) : bytes.toList = bytes.data.toList := by
  have hloop (i : Nat) (read : List UInt8) :
      ByteArray.toList.loop bytes i read = read.reverse ++ bytes.data.toList.drop i := by
    fun_induction ByteArray.toList.loop bytes i read with
    | case1 i read hlt ih =>
        have hlength : i < bytes.data.toList.length := hlt
        rw [ih, List.drop_eq_getElem_cons hlength, List.reverse_cons, List.append_assoc, ByteArray.get!,
          getElem!_pos bytes.data i hlt]
        rfl
    | case2 i read hge =>
        rw [List.drop_of_length_le (Nat.le_of_not_lt hge), List.append_nil]
  exact hloop 0 []

theorem utf8_toList (s : String) : s.toUTF8.toList = s.toList.flatMap String.utf8EncodeChar := by
  have hbytes : s.toByteArray = s.toList.utf8Encode := by
    rw [← String.toByteArray_ofList, String.ofList_toList]
  rw [toList_eq_data, String.toUTF8, hbytes, List.utf8Encode, List.toList_data_toByteArray]

/-- The bytes of a text tell which it is. -/
theorem utf8_inj {s t : String} (h : s.toUTF8.toList = t.toUTF8.toList) : s = t := by
  rw [toList_eq_data, toList_eq_data] at h
  exact String.toByteArray_inj.1 (ByteArray.ext (Array.toList_inj.1 h))

def zeros (s : String) : Nat :=
  s.toList.count '\x00'

theorem zero_eq_ofNat_iff {n : Nat} : 0 = UInt8.ofNat n ↔ n % 256 = 0 := by
  rw [← UInt8.toNat_inj, UInt8.toNat_ofNat', eq_comm]
  rfl

theorem count_zero_utf8EncodeChar (c : Char) : (String.utf8EncodeChar c).count 0 = [c].count '\x00' := by
  by_cases hc : c = '\x00'
  · subst hc
    rfl
  · have hpos : c.val.toNat ≠ 0 := fun h => hc (Char.toNat_inj.1 h)
    have hnone : [c].count '\x00' = 0 := List.count_eq_zero.2 (by simpa [eq_comm] using hc)
    rw [hnone, List.count_eq_zero]
    fun_cases String.utf8EncodeChar c with
    | case1 v hv =>
        simp only [List.mem_singleton, zero_eq_ofNat_iff]
        omega
    | _ =>
        -- The first byte of a longer character is at least 192, the others are at least 128.
        simp only [List.mem_cons, List.not_mem_nil, or_false, zero_eq_ofNat_iff]
        omega

/-- Only zero characters are written with zero bytes. -/
theorem count_zero_utf8 (s : String) : s.toUTF8.toList.count 0 = zeros s := by
  rw [utf8_toList, zeros]
  induction s.toList with
  | nil => rfl
  | cons c cs ih =>
      rw [List.flatMap_cons, List.count_append, ih, count_zero_utf8EncodeChar, ← List.count_append]
      rfl

end Text

theorem append_cons_inj_of_count {α : Type} [DecidableEq α] {a : α} {l l' r r' : List α}
    (h : l ++ a :: r = l' ++ a :: r') (hcount : l.count a = l'.count a) : l = l' ∧ r = r' := by
  induction l generalizing l' with
  | nil =>
      cases l' with
      | nil => exact ⟨rfl, (List.cons.inj h).2⟩
      | cons b l' =>
          obtain ⟨rfl, -⟩ := List.cons.inj h
          simp at hcount
  | cons b l ih =>
      cases l' with
      | nil =>
          obtain ⟨rfl, -⟩ := List.cons.inj h
          simp at hcount
      | cons c l' =>
          obtain ⟨rfl, htail⟩ := List.cons.inj h
          rw [List.count_cons, List.count_cons, Nat.add_right_cancel_iff] at hcount
          obtain ⟨rfl, rfl⟩ := ih htail hcount
          exact ⟨rfl, rfl⟩

namespace StateKey

variable {k k' : StateKey}

/-- Kind, field and id with a zero between them, as one text. -/
def joined (k : StateKey) : String :=
  k.kind ++ "\x00" ++ k.field ++ "\x00" ++ k.id

theorem identity_eq (k : StateKey) : k.identity = k.joined.toUTF8.toList := by
  have hzero : ("\x00" : String).toList.flatMap String.utf8EncodeChar = [0] := rfl
  simp only [identity, joined, Text.utf8_toList, String.toList_append, List.flatMap_append, hzero]
  simp

theorem identity_eq_iff : k.identity = k'.identity ↔ k.joined = k'.joined := by
  rw [identity_eq, identity_eq]
  exact ⟨Text.utf8_inj, fun h => by rw [h]⟩

theorem lockKey_eq_iff_digest {p : String} :
    k.lockKey p = k'.lockKey p ↔ Sha256.digest k.identity = Sha256.digest k'.identity := by
  rw [lockKey, lockKey, String.append_right_inj]
  exact Text.hexBytes_injective.eq_iff

/-- The zeros of kind and field tell where these end in the joined text. -/
theorem eq_of_joined_eq (h : k.joined = k'.joined) (hkind : Text.zeros k.kind = Text.zeros k'.kind)
    (hfield : Text.zeros k.field = Text.zeros k'.field) : k = k' := by
  rw [← identity_eq_iff, identity, identity] at h
  rw [← Text.count_zero_utf8, ← Text.count_zero_utf8] at hkind hfield
  obtain ⟨hkinds, hrest⟩ := append_cons_inj_of_count h hkind
  obtain ⟨hfields, hids⟩ := append_cons_inj_of_count hrest hfield
  cases k
  cases k'
  rw [StateKey.mk.injEq]
  exact ⟨Text.utf8_inj hkinds, Text.utf8_inj hids, Text.utf8_inj hfields⟩

/-- Where the digest tells the two apart, they share a lock exactly if they are joined to the same text, and are
then the same field exactly if the zeros of their kinds and of their fields are as many. -/
theorem lockKey_separates (p : String)
    (hdigest : Sha256.digest k.identity = Sha256.digest k'.identity → k.identity = k'.identity) :
    (k.lockKey p = k'.lockKey p ↔ k.joined = k'.joined) ∧
    (k.lockKey p = k'.lockKey p →
      (k = k' ↔ Text.zeros k.kind = Text.zeros k'.kind ∧ Text.zeros k.field = Text.zeros k'.field)) := by
  have hshared : k.lockKey p = k'.lockKey p ↔ k.joined = k'.joined := by
    rw [lockKey_eq_iff_digest, ← identity_eq_iff]
    exact ⟨hdigest, fun h => by rw [h]⟩
  refine ⟨hshared, fun h => ⟨fun heq => by rw [heq]; exact ⟨rfl, rfl⟩, fun ⟨hkind, hfield⟩ => ?_⟩⟩
  exact eq_of_joined_eq (hshared.1 h) hkind hfield

/-- Two fields of one invoice do not share a lock. -/
theorem invoice_separates :
    let status : StateKey := ⟨"invoice", "1", "status"⟩
    let payment : StateKey := ⟨"invoice", "1", "payment_status"⟩
    (Sha256.digest status.identity = Sha256.digest payment.identity → status.identity = payment.identity) ∧
    status.lockKey "flowgate-lock" ≠ payment.lockKey "flowgate-lock" := by
  intro status payment
  have hdigest : Sha256.digest status.identity = Sha256.digest payment.identity →
      status.identity = payment.identity := by decide +kernel
  refine ⟨hdigest, fun h => ?_⟩
  have hjoined := (lockKey_separates "flowgate-lock" hdigest).1.1 h
  revert hjoined
  decide

/-- A zero at the end of the kind or at the start of the field: the joined texts are the same. -/
theorem lockKey_not_injective :
    ¬ ∀ (p : String) (k k' : StateKey),
      (Sha256.digest k.identity = Sha256.digest k'.identity → k.identity = k'.identity) →
      k.lockKey p = k'.lockKey p → k = k' := by
  intro h
  have hidentity : StateKey.identity ⟨"a", "x", "f\x00g"⟩ = StateKey.identity ⟨"a\x00f", "x", "g"⟩ :=
    identity_eq_iff.2 (by decide)
  have hsame := h "flowgate-lock" ⟨"a", "x", "f\x00g"⟩ ⟨"a\x00f", "x", "g"⟩ (fun _ => hidentity)
    (lockKey_eq_iff_digest.2 (by rw [hidentity]))
  revert hsame
  decide

end StateKey

end Workflow
