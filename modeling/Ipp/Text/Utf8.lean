/-!
# UTF-8

Text and its bytes. Reading is strict (`ofUtf8?`) where bytes that are no text are kept as bytes, and
lenient (`ofUtf8Lossy`) for names, which always become text.
-/

namespace Ipp.Text

def utf8 (s : String) : List UInt8 :=
  s.toUTF8.data.toList

def ofUtf8? (bytes : List UInt8) : Option String :=
  String.fromUTF8? ⟨bytes.toArray⟩

theorem ofUtf8?_utf8 (s : String) : ofUtf8? (utf8 s) = some s := by
  have h : (⟨(utf8 s).toArray⟩ : ByteArray) = s.toByteArray := rfl
  rw [ofUtf8?, h, String.fromUTF8?, dif_pos s.isValidUTF8]
  rfl

theorem utf8_of_ofUtf8? {bytes : List UInt8} {s : String} (h : ofUtf8? bytes = some s) :
    utf8 s = bytes := by
  simp only [ofUtf8?, String.fromUTF8?] at h
  split at h
  · cases h; rfl
  · cases h

/-! ## Replacement of what is no text -/

-- Stands for bytes that are no text.
def replacement : Char := '\ufffd'

def isContinuation (b : UInt8) : Bool :=
  0x80 ≤ b && b ≤ 0xBF

/-- Whether `b` may follow the leading byte `lead` of a scalar of three or four bytes. The bounds leave
out the longer spellings of shorter scalars, the surrogates, and what lies past the last scalar. -/
def isSecond (lead b : UInt8) : Bool :=
  if lead = 0xE0 then 0xA0 ≤ b && b ≤ 0xBF
  else if lead = 0xED then 0x80 ≤ b && b ≤ 0x9F
  else if lead = 0xF0 then 0x90 ≤ b && b ≤ 0xBF
  else if lead = 0xF4 then 0x80 ≤ b && b ≤ 0x8F
  else isContinuation b

-- The scalar with the given leading payload and continuation bytes.
def scalar (lead : Nat) (tail : List UInt8) : Char :=
  Char.ofNat (tail.foldl (fun n b => n * 64 + (b.toNat - 0x80)) lead)

/-- Decodes scalar by scalar. The longest start of a well-formed scalar that is broken off, or one byte
that starts none, becomes one replacement character. -/
def lossyChars : List UInt8 → List Char
  | [] => []
  | a :: r =>
    if a < 0x80 then Char.ofNat a.toNat :: lossyChars r
    else if 0xC2 ≤ a && a ≤ 0xDF then
      match r with
      | b :: r' =>
        if isContinuation b then scalar (a.toNat - 0xC0) [b] :: lossyChars r'
        else replacement :: lossyChars (b :: r')
      | [] => [replacement]
    else if 0xE0 ≤ a && a ≤ 0xEF then
      match r with
      | b :: r' =>
        if isSecond a b then
          match r' with
          | c :: r'' =>
            if isContinuation c then scalar (a.toNat - 0xE0) [b, c] :: lossyChars r''
            else replacement :: lossyChars (c :: r'')
          | [] => [replacement]
        else replacement :: lossyChars (b :: r')
      | [] => [replacement]
    else if 0xF0 ≤ a && a ≤ 0xF4 then
      match r with
      | b :: r' =>
        if isSecond a b then
          match r' with
          | c :: r'' =>
            if isContinuation c then
              match r'' with
              | d :: r''' =>
                if isContinuation d then scalar (a.toNat - 0xF0) [b, c, d] :: lossyChars r'''
                else replacement :: lossyChars (d :: r''')
              | [] => [replacement]
            else replacement :: lossyChars (c :: r'')
          | [] => [replacement]
        else replacement :: lossyChars (b :: r')
      | [] => [replacement]
    else replacement :: lossyChars r

-- Text stays as it is; in other bytes every part that is no text is replaced.
def ofUtf8Lossy (bytes : List UInt8) : String :=
  (ofUtf8? bytes).getD (String.ofList (lossyChars bytes))

theorem ofUtf8Lossy_utf8 (s : String) : ofUtf8Lossy (utf8 s) = s := by
  simp [ofUtf8Lossy, ofUtf8?_utf8]

end Ipp.Text
