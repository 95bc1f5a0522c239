import Ipp.Json.Basic
import Ipp.Json.Reading
import Ipp.Proofs.Numerals

/-!
# JSON there and back

The ways in which a text can be spelled in JSON, of which the writer uses one. A text in any of them, a
number and a truth value are read as what was written, and nothing behind them is taken
(`Quotes.readText_append`, `readNat_decimal`, `readBool_boolText`).
-/

namespace Ipp.Json

/-! ## Blanks -/

def isBlank (c : Char) : Bool :=
  c = ' ' || c = '\t' || c = '\n' || c = '\r'

/-- Characters that make no difference between the parts of a JSON text. -/
structure Blanks where
  chars : List Char := []
  blank : chars.all isBlank = true := by decide

theorem skipBlanks_of_not {c : Char} (h : isBlank c = false) (rest : List Char) :
    skipBlanks (c :: rest) = c :: rest :=
  List.dropWhile_cons_of_neg (by simpa [isBlank] using h)

@[simp] theorem skipBlanks_append (b : Blanks) (cs : List Char) :
    skipBlanks (b.chars ++ cs) = skipBlanks cs :=
  List.dropWhile_append_of_pos (List.all_eq_true.mp b.blank)

@[simp] theorem skipBlanks_chars (b : Blanks) : skipBlanks b.chars = [] := by
  have h := skipBlanks_append b []
  rwa [List.append_nil] at h

-- Blanks are skipped up to any other character at most.
theorem length_lt_skipBlanks {c : Char} (h : isBlank c = false) (cs rest : List Char) :
    rest.length < (skipBlanks (cs ++ c :: rest)).length := by
  induction cs with
  | nil =>
    rw [List.nil_append, skipBlanks_of_not h, List.length_cons]
    omega
  | cons b cs ih =>
    by_cases hb : isBlank b = true
    · have hskip : skipBlanks (b :: cs ++ c :: rest) = skipBlanks (cs ++ c :: rest) :=
        List.dropWhile_cons_of_pos hb
      rw [hskip]
      exact ih
    · rw [List.cons_append, skipBlanks_of_not (eq_false_of_ne_true hb)]
      simp only [List.length_cons, List.length_append]
      omega

/-! ## Lists of parts -/

theorem commaSeparated_cons_cons (part part' : List Char) (parts : List (List Char)) :
    commaSeparated (part :: part' :: parts) = part ++ ',' :: commaSeparated (part' :: parts) :=
  rfl

theorem length_commaSeparated (parts : List (List Char)) :
    parts.length ≤ (commaSeparated parts).length + 1 := by
  induction parts with
  | nil => exact Nat.zero_le _
  | cons part parts ih =>
    cases parts with
    | nil => simp
    | cons part' parts =>
      rw [commaSeparated_cons_cons]
      simp only [List.length_append, List.length_cons] at ih ⊢
      omega

/-! ## Texts -/

/-- The ways to spell characters between quotes: as they stand unless they are controls, quotes or
backslashes, as a backslash and a letter where there is one, or as the codes of their UTF-16 units. -/
inductive Spells : (spelled chars : List Char) → Prop
  | nil : Spells [] []
  | plain {spelled chars : List Char} (c : Char) (hquote : c ≠ '"') (hslash : c ≠ '\\') (hcontrol : ¬c < ' ')
    (more : Spells spelled chars) : Spells (c :: spelled) (c :: chars)
  | letter {spelled chars : List Char} {e c : Char} (hletter : unescape? e = some c)
    (more : Spells spelled chars) : Spells ('\\' :: e :: spelled) (c :: chars)
  | code {spelled chars : List Char} {h₁ h₂ h₃ h₄ : Char} {n : Nat} (hcode : hexCode? h₁ h₂ h₃ h₄ = some n)
    (hhigh : isHighHalf n = false) (hlow : isLowHalf n = false) (more : Spells spelled chars) :
    Spells ('\\' :: 'u' :: h₁ :: h₂ :: h₃ :: h₄ :: spelled) (Char.ofNat n :: chars)
  | pair {spelled chars : List Char} {h₁ h₂ h₃ h₄ l₁ l₂ l₃ l₄ : Char} {hi lo : Nat}
    (hcode : hexCode? h₁ h₂ h₃ h₄ = some hi) (lcode : hexCode? l₁ l₂ l₃ l₄ = some lo)
    (hhigh : isHighHalf hi = true) (hlow : isLowHalf lo = true) (more : Spells spelled chars) :
    Spells
      ('\\' :: 'u' :: h₁ :: h₂ :: h₃ :: h₄ :: '\\' :: 'u' :: l₁ :: l₂ :: l₃ :: l₄ :: spelled)
      (Char.ofNat (0x10000 + (hi - 0xD800) * 0x400 + (lo - 0xDC00)) :: chars)

-- A code that is no half stands for its character, whatever stands behind it.
theorem charsOfUnits_code {n : Nat} (hhigh : isHighHalf n = false) (hlow : isLowHalf n = false)
    (units : List TextUnit) :
    charsOfUnits (.code n :: units) = (charsOfUnits units).map (Char.ofNat n :: ·) := by
  match units with
  | [] | .char _ :: _ | .code _ :: _ => simp [charsOfUnits, hhigh, hlow]

/-- What is spelled is read up to the closing quote. -/
theorem Spells.readUnits_append {spelled chars : List Char} (h : Spells spelled chars) (rest : List Char) :
    ∃ units, readUnits (spelled ++ '"' :: rest) = some (units, rest) ∧
      charsOfUnits units = some chars := by
  induction h with
  | nil => exact ⟨[], rfl, rfl⟩
  | plain c hquote hslash hcontrol _ ih =>
    obtain ⟨units, hunits, hchars⟩ := ih
    refine ⟨.char c :: units, ?_, by rw [charsOfUnits, hchars]; rfl⟩
    rw [List.cons_append, readUnits.eq_5 _ _ hquote (fun _ _ _ _ _ h => absurd h hslash)
      (fun _ _ h => absurd h hslash), hunits, if_neg (by simp [hslash, hcontrol])]
    rfl
  | @letter spelled chars e c hletter _ ih =>
    obtain ⟨units, hunits, hchars⟩ := ih
    refine ⟨.char c :: units, ?_, by rw [charsOfUnits, hchars]; rfl⟩
    -- No character stands behind a backslash as `u`.
    have hu : e ≠ 'u' := by
      rintro rfl
      cases hletter
    rw [List.cons_append, List.cons_append, readUnits.eq_4 _ _ (fun _ _ _ _ _ h => absurd h hu), hletter,
      hunits]
    rfl
  | @code _ _ _ _ _ _ n hcode hhigh hlow _ ih =>
    obtain ⟨units, hunits, hchars⟩ := ih
    refine ⟨.code n :: units, ?_, by rw [charsOfUnits_code hhigh hlow, hchars]; rfl⟩
    simp only [List.cons_append]
    rw [readUnits, hcode, hunits]
    rfl
  | @pair _ _ _ _ _ _ _ _ _ _ hi lo hcode lcode hhigh hlow _ ih =>
    obtain ⟨units, hunits, hchars⟩ := ih
    refine ⟨.code hi :: .code lo :: units, ?_, ?_⟩
    · simp only [List.cons_append]
      rw [readUnits, hcode, readUnits, lcode, hunits]
      rfl
    · rw [charsOfUnits, if_pos hhigh, if_pos hlow, hchars]
      rfl

theorem hexValue?_digitChar : ∀ n < 16, Text.hexValue? (Nat.digitChar n) = some n := by
  decide

-- Only controls are written as codes.
theorem hexCode?_control {c : Char} (h : c < ' ') :
    hexCode? '0' '0' (Nat.digitChar (c.toNat / 16)) (Nat.digitChar (c.toNat % 16)) = some c.toNat := by
  have hlt : c.toNat < 32 := h
  have hzero : Text.hexValue? '0' = some 0 := rfl
  have hcode : ((0 * 16 + 0) * 16 + c.toNat / 16) * 16 + c.toNat % 16 = c.toNat := by omega
  simp only [hexCode?, hzero, hexValue?_digitChar (c.toNat / 16) (by omega),
    hexValue?_digitChar (c.toNat % 16) (by omega), Option.bind_eq_bind, Option.bind_some, hcode]

/-- The three ways in which the writer spells a character. -/
theorem escape_cases (c : Char) :
    (∃ e, escape c = ['\\', e] ∧ unescape? e = some c) ∨
    (c < ' ' ∧ escape c =
      ['\\', 'u', '0', '0', Nat.digitChar (c.toNat / 16), Nat.digitChar (c.toNat % 16)]) ∨
    (c ≠ '"' ∧ c ≠ '\\' ∧ ¬c < ' ' ∧ escape c = [c]) := by
  by_cases hletter : c ∈ ['"', '\\', '\x08', '\t', '\n', '\x0c', '\r']
  · simp only [List.mem_cons, List.not_mem_nil, or_false] at hletter
    rcases hletter with rfl | rfl | rfl | rfl | rfl | rfl | rfl <;> exact .inl ⟨_, rfl, rfl⟩
  · simp only [List.mem_cons, List.not_mem_nil, or_false, not_or] at hletter
    obtain ⟨hquote, hslash, hback, htab, hline, hfeed, hreturn⟩ := hletter
    unfold escape
    rw [if_neg hquote, if_neg hslash, if_neg hback, if_neg htab, if_neg hline, if_neg hfeed, if_neg hreturn]
    by_cases hcontrol : c < ' '
    · exact .inr (.inl ⟨hcontrol, if_pos hcontrol⟩)
    · exact .inr (.inr ⟨hquote, hslash, hcontrol, if_neg hcontrol⟩)

theorem Spells.escape_append {spelled chars : List Char} (h : Spells spelled chars) (c : Char) :
    Spells (escape c ++ spelled) (c :: chars) := by
  rcases escape_cases c with ⟨e, hc, he⟩ | ⟨hcontrol, hc⟩ | ⟨hquote, hslash, hcontrol, hc⟩
  · rw [hc]
    exact .letter he h
  · have hlt : c.toNat < 32 := hcontrol
    have hhigh : isHighHalf c.toNat = false := by
      simp only [isHighHalf, Bool.and_eq_false_iff, decide_eq_false_iff_not]
      omega
    have hlow : isLowHalf c.toNat = false := by
      simp only [isLowHalf, Bool.and_eq_false_iff, decide_eq_false_iff_not]
      omega
    have hcode := Spells.code (hexCode?_control hcontrol) hhigh hlow h
    rw [Char.ofNat_toNat] at hcode
    rw [hc]
    exact hcode
  · rw [hc]
    exact .plain c hquote hslash hcontrol h

theorem spells_escape (cs : List Char) : Spells (cs.flatMap escape) cs := by
  induction cs with
  | nil => exact .nil
  | cons c cs ih => exact ih.escape_append c

/-- The characters are a text in quotes, in any spelling. -/
def Quotes (cs : List Char) (s : String) : Prop :=
  ∃ spelled, Spells spelled s.toList ∧ cs = '"' :: (spelled ++ ['"'])

theorem quotes_quoteChars (s : String) : Quotes (quoteChars s) s :=
  ⟨_, spells_escape s.toList, rfl⟩

theorem Quotes.readText_append {cs : List Char} {s : String} (h : Quotes cs s) (rest : List Char) :
    readText (cs ++ rest) = some (s, rest) := by
  obtain ⟨spelled, hspells, rfl⟩ := h
  obtain ⟨units, hunits, hchars⟩ := hspells.readUnits_append rest
  rw [List.cons_append, List.append_assoc, List.singleton_append, readText, hunits]
  show (charsOfUnits units >>= fun cs => some (String.ofList cs, rest)) = _
  rw [hchars, ← String.ofList_toList (s := s)]
  simp

/-! ## Numbers and truth values -/

/-- What stands behind a number does not go on with it. -/
def EndsNumber (cs : List Char) : Prop :=
  ∀ c ∈ cs.head?, c.isDigit = false ∧ c ≠ '.' ∧ c ≠ 'e' ∧ c ≠ 'E'

-- Only zero is written with a zero in front.
theorem toDigits_zero_cons {n : Nat} {rest : List Char} (h : Nat.toDigits 10 n = '0' :: rest) :
    rest = [] := by
  have hdigits : ∀ c ∈ rest, c.isDigit = true := fun c hc =>
    Text.isDigit_of_mem_toDigits (n := n) (by rw [h]; exact List.mem_cons_of_mem _ hc)
  have hvalue : Text.ofDigits rest = n := by
    rw [← Text.ofDigits_toDigits n, h]
    exact (Text.ofDigits_zeros 1 rest).symm
  by_contra hfilled
  obtain ⟨zeros, hzeros⟩ := Text.exists_zeros hfilled hdigits
  rw [hvalue, h] at hzeros
  have hlength := congrArg List.length hzeros
  simp only [List.length_append, List.length_replicate, List.length_cons] at hlength
  omega

theorem takeWhile_digits (n : Nat) {rest : List Char} (h : EndsNumber rest) :
    (Nat.toDigits 10 n ++ rest).takeWhile Char.isDigit = Nat.toDigits 10 n ∧
      (Nat.toDigits 10 n ++ rest).dropWhile Char.isDigit = rest := by
  have hdigits : ∀ c ∈ Nat.toDigits 10 n, c.isDigit = true := fun c => Text.isDigit_of_mem_toDigits
  have hrest : rest.takeWhile Char.isDigit = [] ∧ rest.dropWhile Char.isDigit = rest := by
    cases rest with
    | nil => exact ⟨rfl, rfl⟩
    | cons c rest =>
      have hc : ¬c.isDigit = true := by simp [(h c rfl).1]
      exact ⟨List.takeWhile_cons_of_neg hc, List.dropWhile_cons_of_neg hc⟩
  rw [List.takeWhile_append_of_pos hdigits, List.dropWhile_append_of_pos hdigits, hrest.1, hrest.2,
    List.append_nil]
  exact ⟨rfl, rfl⟩

-- The shortest spelling of a number is a whole part.
theorem skipWhole_toDigits (n : Nat) {rest : List Char} (h : EndsNumber rest) :
    skipWhole (Nat.toDigits 10 n ++ rest) = some rest := by
  obtain ⟨htake, hdrop⟩ := takeWhile_digits n h
  by_cases hzero : ∃ more, Nat.toDigits 10 n = '0' :: more
  · obtain ⟨more, hmore⟩ := hzero
    have hnil := toDigits_zero_cons hmore
    rw [hmore, hnil, List.singleton_append] at htake ⊢
    have hnone : rest.takeWhile Char.isDigit = [] := by
      rw [List.takeWhile_cons_of_pos rfl] at htake
      exact (List.cons.inj htake).2
    rw [skipWhole, hnone]
    rfl
  · have hstart : ∀ more, Nat.toDigits 10 n ++ rest = '0' :: more → False := by
      intro more hmore
      cases hdigits : Nat.toDigits 10 n with
      | nil => exact Nat.toDigits_ne_nil hdigits
      | cons c cs =>
        rw [hdigits, List.cons_append] at hmore
        exact hzero ⟨cs, by rw [hdigits, (List.cons.inj hmore).1]⟩
    rw [skipWhole.eq_2 _ hstart, skipDigits, htake, hdrop, if_neg (by simp)]

theorem skipNumber_toDigits (n : Nat) {rest : List Char} (h : EndsNumber rest) :
    skipNumber (Nat.toDigits 10 n ++ rest) = some rest := by
  have hsign : (Nat.toDigits 10 n ++ rest).head? ≠ some '-' := by
    cases hdigits : Nat.toDigits 10 n with
    | nil => exact absurd hdigits Nat.toDigits_ne_nil
    | cons c cs =>
      have hc : c.isDigit = true :=
        Text.isDigit_of_mem_toDigits (n := n) (by rw [hdigits]; exact List.mem_cons_self)
      rintro ⟨⟩
      exact absurd hc (by decide)
  have hfraction : skipFraction rest = some rest := by
    cases rest with
    | nil => rfl
    | cons c rest => exact skipFraction.eq_2 _ fun _ hrest => (h c rfl).2.1 (List.cons.inj hrest).1
  have hexponent : skipExponent rest = some rest := by
    cases rest with
    | nil => rfl
    | cons c rest =>
      obtain ⟨-, -, hlower, hupper⟩ := h c rfl
      have hmark : ¬(decide (c = 'e') || decide (c = 'E')) = true := by simp [hlower, hupper]
      exact if_neg hmark
  rw [skipNumber, if_neg hsign, skipWhole_toDigits n h]
  simp only [Option.bind_eq_bind, Option.bind_some, hfraction, hexponent]

theorem readNat_decimal (n : Nat) {rest : List Char} (h : EndsNumber rest) :
    readNat ((Text.decimal n).toList ++ rest) = some (n, rest) := by
  obtain ⟨htake, hdrop⟩ := takeWhile_digits n h
  have hn : Text.natOfDecimal? (Nat.toDigits 10 n) = some n :=
    Text.natOfDecimal?_eq_some_iff.mpr ⟨0, rfl⟩
  rw [Text.decimal, String.toList_ofList, readNat, htake, hdrop, hn, skipNumber_toDigits n h]
  simp

theorem readBool_boolText (b : Bool) (rest : List Char) :
    readBool ((boolText b).toList ++ rest) = some (b, rest) := by
  cases b <;> rfl

end Ipp.Json
