import Ipp.Text.Digits
import Mathlib.Data.List.Induction

/-!
# Numerals

The digits that are read as a number are its shortest spelling, behind any zeros
(`natOfDecimal?_eq_some_iff`). Bytes are spelled with two digits each (`spellsBytes_hexBytes`).
-/

namespace Ipp.Text

/-! ## Shortest spellings -/

theorem ofDigits_toDigits (n : Nat) : ofDigits (Nat.toDigits 10 n) = n := by
  refine Eq.trans ?_ Nat.ofDigitChars_ten_toDigits
  rw [Nat.ofDigitChars_eq_foldl, ofDigits]
  simp only [digitValue, Nat.mul_comm]

theorem isDigit_of_mem_toDigits {n : Nat} {c : Char} (hc : c ∈ Nat.toDigits 10 n) : c.isDigit = true :=
  Nat.isDigit_of_mem_toDigits (by decide) (by decide) hc

theorem decimal_inj {m n : Nat} : decimal m = decimal n ↔ m = n := by
  refine ⟨fun h => ?_, congrArg decimal⟩
  rw [← ofDigits_toDigits m, ← ofDigits_toDigits n, String.ofList_injective h]

/-! ## Digits -/

theorem toDigits_digitValue {c : Char} (hc : c.isDigit = true) :
    digitValue c < 10 ∧ Nat.toDigits 10 (digitValue c) = [c] := by
  obtain ⟨hlow, hhigh⟩ : 48 ≤ c.toNat ∧ c.toNat ≤ 57 := Char.isDigit_iff_toNat.mp hc
  have hlt : c.toNat - 48 < 10 := by omega
  have hchar : Nat.digitChar (c.toNat - 48) = c := by
    apply Char.toNat_inj.mp
    rw [Nat.toNat_digitChar_of_lt_ten hlt]
    omega
  exact ⟨hlt, (Nat.toDigits_of_lt_base hlt).trans (congrArg (fun c => [c]) hchar)⟩

theorem ofDigits_concat (cs : List Char) (c : Char) :
    ofDigits (cs ++ [c]) = 10 * ofDigits cs + digitValue c := by
  rw [ofDigits, List.foldl_append, Nat.mul_comm]
  rfl

theorem ofDigits_zeros (zeros : Nat) (cs : List Char) :
    ofDigits (List.replicate zeros '0' ++ cs) = ofDigits cs := by
  induction zeros with
  | zero => rfl
  | succ zeros ih =>
    rw [List.replicate_succ, List.cons_append, ← ih]
    rfl

/-- Digits are the shortest spelling of what they spell, behind zeros. -/
theorem exists_zeros {cs : List Char} (hfilled : cs ≠ []) (hdigits : ∀ c ∈ cs, c.isDigit = true) :
    ∃ zeros, cs = List.replicate zeros '0' ++ Nat.toDigits 10 (ofDigits cs) := by
  -- Behind a number a digit belongs to its spelling; behind zeros it is the spelling.
  induction cs using List.reverseRecOn with
  | nil => exact absurd rfl hfilled
  | append_singleton front c ih =>
    obtain ⟨hlt, hc⟩ := toDigits_digitValue (hdigits c (by simp))
    rw [ofDigits_concat]
    by_cases hfront : front = []
    · refine ⟨0, ?_⟩
      rw [hfront]
      exact hc.symm.trans (congrArg _ (Nat.zero_add _).symm)
    obtain ⟨zeros, hzeros⟩ := ih hfront fun d hd => hdigits d (by simp [hd])
    generalize ofDigits front = n at hzeros
    rcases Nat.eq_zero_or_pos n with rfl | hpos
    · refine ⟨zeros + 1, ?_⟩
      rw [hzeros, Nat.mul_zero, Nat.zero_add, hc, List.replicate_succ']
      rfl
    · refine ⟨zeros, ?_⟩
      rw [← Nat.toDigits_append_toDigits (by decide) hpos hlt, hc, hzeros, List.append_assoc]

theorem isDigit_of_mem_zeros {zeros n : Nat} {c : Char}
    (hc : c ∈ List.replicate zeros '0' ++ Nat.toDigits 10 n) : c.isDigit = true := by
  rcases List.mem_append.mp hc with hc | hc
  · rw [List.eq_of_mem_replicate hc]
    rfl
  · exact isDigit_of_mem_toDigits hc

theorem natOfDecimal?_eq_some_iff {cs : List Char} {n : Nat} :
    natOfDecimal? cs = some n ↔ ∃ zeros, cs = List.replicate zeros '0' ++ Nat.toDigits 10 n := by
  unfold natOfDecimal?
  constructor
  · intro h
    split at h
    · next hdigits =>
      cases h
      rw [Bool.and_eq_true, Bool.not_eq_true', List.isEmpty_eq_false_iff, List.all_eq_true] at hdigits
      exact exists_zeros hdigits.1 hdigits.2
    · cases h
  · rintro ⟨zeros, rfl⟩
    have hdigits : (List.replicate zeros '0' ++ Nat.toDigits 10 n).all Char.isDigit = true :=
      List.all_eq_true.mpr fun _ => isDigit_of_mem_zeros
    have hfilled : (List.replicate zeros '0' ++ Nat.toDigits 10 n).isEmpty = false := by simp
    rw [if_pos (by rw [hfilled, hdigits]; rfl), ofDigits_zeros, ofDigits_toDigits]

/-! ## Bytes -/

def hexDigits : List Char :=
  "0123456789abcdef".toList

/-- The text spells the bytes in hexadecimal, with two digits of lower case for each. -/
structure SpellsBytes (text : String) (bytes : List UInt8) : Prop where
  length : text.length = 2 * bytes.length
  high : ∀ (i : Nat) (b : UInt8), bytes[i]? = some b → text.toList[2 * i]? = hexDigits[b.toNat / 16]?
  low : ∀ (i : Nat) (b : UInt8), bytes[i]? = some b → text.toList[2 * i + 1]? = hexDigits[b.toNat % 16]?

theorem getElem?_hexDigits : ∀ n < 16, hexDigits[n]? = some (Nat.digitChar n) := by
  decide

theorem spellsBytes_hexBytes (bytes : List UInt8) : SpellsBytes (hexBytes bytes) bytes := by
  have hcons (b : UInt8) (bs : List UInt8) : (hexBytes (b :: bs)).toList =
      Nat.digitChar (b.toNat / 16) :: Nat.digitChar (b.toNat % 16) :: (hexBytes bs).toList := by
    simp [hexBytes, hexByte, String.join_cons]
  induction bytes with
  | nil => exact ⟨rfl, nofun, nofun⟩
  | cons b bs ih =>
    have hhigh := getElem?_hexDigits (b.toNat / 16) (by have := b.toNat_lt; omega)
    have hlow := getElem?_hexDigits (b.toNat % 16) (by omega)
    refine ⟨?_, fun i c hc => ?_, fun i c hc => ?_⟩
    · have := ih.length
      rw [← String.length_toList] at this ⊢
      rw [hcons, List.length_cons, List.length_cons, this, List.length_cons]
      omega
    · rw [hcons]
      cases i with
      | zero =>
        cases hc
        exact hhigh.symm
      | succ i => exact ih.high i c hc
    · rw [hcons]
      cases i with
      | zero =>
        cases hc
        exact hlow.symm
      | succ i => exact ih.low i c hc

end Ipp.Text
