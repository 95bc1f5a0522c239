import Ipp.Text.Utf8
import Ipp.Wire

/-!
# Numbers and names there and back

Writing what was read gives the same bytes, and reading what was written gives the same number.
-/

namespace Ipp.Wire

/-! ## Bytes and naturals -/

theorem weight_pos (width : Nat) : 0 < weight width := by
  induction width with
  | zero => decide
  | succ width ih =>
    rw [weight]
    omega

theorem toNat_lt (bytes : List UInt8) : toNat bytes < weight bytes.length := by
  induction bytes with
  | nil => decide
  | cons b bytes ih =>
    rw [toNat_cons, List.length_cons, weight]
    have hb : b.toNat < 256 := b.toNat_lt
    have hmul : b.toNat * weight bytes.length ≤ 255 * weight bytes.length :=
      Nat.mul_le_mul_right _ (by omega)
    omega

-- Only the part of a number that fits is written.
theorem ofNat_mul_add (width a n : Nat) : ofNat width (a * weight width + n) = ofNat width n := by
  induction width generalizing a with
  | zero => rfl
  | succ width ih =>
    have hsplit : a * weight (width + 1) + n = a * 256 * weight width + n := by
      rw [weight, Nat.mul_assoc, Nat.mul_comm (weight width) 256]
    have hdiv : (a * 256 * weight width + n) / weight width = n / weight width + a * 256 := by
      rw [Nat.add_comm, Nat.add_mul_div_right _ _ (weight_pos width)]
    rw [hsplit, ofNat, ofNat, ih, hdiv]
    congr 1
    apply UInt8.toNat_inj.mp
    show (n / weight width + a * 256) % 256 = n / weight width % 256
    exact Nat.add_mul_mod_self_right _ _ _

theorem ofNat_toNat (bytes : List UInt8) : ofNat bytes.length (toNat bytes) = bytes := by
  induction bytes with
  | nil => rfl
  | cons b bytes ih =>
    have hdiv : (b.toNat * weight bytes.length + toNat bytes) / weight bytes.length = b.toNat := by
      rw [Nat.add_comm, Nat.add_mul_div_right _ _ (weight_pos _), Nat.div_eq_of_lt (toNat_lt bytes),
        Nat.zero_add]
    rw [List.length_cons, ofNat, toNat_cons, ofNat_mul_add, ih, hdiv, UInt8.ofNat_toNat]

/-! ## Words -/

theorem toUInt16_ofUInt16 (n : UInt16) : toUInt16 (ofUInt16 n) = n := by
  have hlt : n.toNat < weight 2 := n.toNat_lt
  rw [toUInt16, ofUInt16, toNat_ofNat, Nat.mod_eq_of_lt hlt, UInt16.ofNat_toNat]

theorem toUInt32_ofUInt32 (n : UInt32) : toUInt32 (ofUInt32 n) = n := by
  have hlt : n.toNat < weight 4 := n.toNat_lt
  rw [toUInt32, ofUInt32, toNat_ofNat, Nat.mod_eq_of_lt hlt, UInt32.ofNat_toNat]

theorem toInt32_ofInt32 (n : Int32) : toInt32 (ofInt32 n) = n := by
  rw [toInt32, ofInt32, toUInt32_ofUInt32]
  rfl

theorem ofUInt16_toUInt16 {bytes : List UInt8} (h : bytes.length = 2) :
    ofUInt16 (toUInt16 bytes) = bytes := by
  have hlt := toNat_lt bytes
  rw [h] at hlt
  rw [ofUInt16, toUInt16, UInt16.toNat_ofNat_of_lt' hlt, ← h, ofNat_toNat]

theorem ofUInt32_toUInt32 {bytes : List UInt8} (h : bytes.length = 4) :
    ofUInt32 (toUInt32 bytes) = bytes := by
  have hlt := toNat_lt bytes
  rw [h] at hlt
  rw [ofUInt32, toUInt32, UInt32.toNat_ofNat_of_lt' hlt, ← h, ofNat_toNat]

theorem ofInt32_toInt32 {bytes : List UInt8} (h : bytes.length = 4) :
    ofInt32 (toInt32 bytes) = bytes := by
  rw [ofInt32, toInt32, UInt32.toUInt32_toInt32, ofUInt32_toUInt32 h]

@[simp] theorem length_ofUInt16 (n : UInt16) : (ofUInt16 n).length = 2 :=
  length_ofNat 2 n.toNat

@[simp] theorem length_ofUInt32 (n : UInt32) : (ofUInt32 n).length = 4 :=
  length_ofNat 4 n.toNat

@[simp] theorem length_ofInt32 (n : Int32) : (ofInt32 n).length = 4 :=
  length_ofUInt32 n.toUInt32

/-! ## Counted bytes -/

theorem counted_eq {bytes : List UInt8} (h : bytes.length ≤ longest) :
    counted bytes = ofUInt16 (UInt16.ofNat bytes.length) ++ bytes := by
  have hlt : bytes.length < UInt16.size := Nat.lt_succ_of_le h
  rw [counted, ofUInt16, UInt16.toNat_ofNat_of_lt' hlt]

theorem toNat_ofNat_length {bytes : List UInt8} (h : bytes.length ≤ longest) :
    (UInt16.ofNat bytes.length).toNat = bytes.length :=
  UInt16.toNat_ofNat_of_lt' (Nat.lt_succ_of_le h)

end Ipp.Wire

namespace Ipp.Text

theorem utf8_ne_nil {s : String} (h : s ≠ "") : utf8 s ≠ [] := by
  intro hu
  have he : ofUtf8? (utf8 s) = ofUtf8? (utf8 "") := by rw [hu]; rfl
  rw [ofUtf8?_utf8, ofUtf8?_utf8] at he
  exact h (Option.some.inj he)

theorem utf8_append (s t : String) : utf8 (s ++ t) = utf8 s ++ utf8 t := by
  simp [utf8, String.toByteArray_append]

theorem utf8_replicate (n : Nat) :
    utf8 (String.ofList (List.replicate n 'a')) = List.replicate n 97 := by
  induction n with
  | zero => rfl
  | succ n ih =>
    rw [List.replicate_succ, List.replicate_succ, String.ofList_cons, utf8_append, ih]
    rfl

theorem lossyChars_ne_nil {bytes : List UInt8} (h : bytes ≠ []) : lossyChars bytes ≠ [] := by
  cases bytes with
  | nil => exact absurd rfl h
  | cons b rest =>
    unfold lossyChars
    repeat' split
    all_goals exact List.cons_ne_nil _ _

-- A name that has bytes is never the empty text.
theorem ofUtf8Lossy_ne_empty {bytes : List UInt8} (h : bytes ≠ []) : ofUtf8Lossy bytes ≠ "" := by
  rw [ofUtf8Lossy]
  cases hs : ofUtf8? bytes with
  | some s =>
    rintro rfl
    exact h (utf8_of_ofUtf8? hs).symm
  | none =>
    intro he
    have hl := congrArg String.toList he
    exact lossyChars_ne_nil h (by simpa using hl)

end Ipp.Text
