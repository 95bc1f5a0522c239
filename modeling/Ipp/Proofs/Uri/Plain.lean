import Ipp.Uri.Basic

/-!
# Plain parts

Names of labels and paths of segments that hold only letters, digits, hyphens, underscores and points.
Reading keeps both as they are: as a host a name gives itself (`specialHost_of_isName`,
`otherHost_of_isName`), and so does a path (`readPath_of_isPath`).
-/

namespace Ipp.Uri

/-! ## Characters -/

/-- A letter, a digit, a hyphen, an underscore or a point. -/
def isPlain (c : Char) : Bool :=
  isLetter c || c.isDigit || c == '-' || c == '_' || c == '.'

theorem toNat_lt_of_isPlain {c : Char} (hc : isPlain c = true) : c.toNat < 128 := by
  simp only [isPlain, isLetter, Bool.or_eq_true, Bool.and_eq_true, decide_eq_true_eq, beq_iff_eq,
    Char.isDigit_iff_toNat, Char.le_def, UInt32.le_iff_toNat_le, Char.toNat_val] at hc
  rcases hc with (((hc | hc) | hc) | hc) | hc
  · have : 'z'.toNat = 122 := rfl
    have : 'Z'.toNat = 90 := rfl
    omega
  · have : '9'.toNat = 57 := rfl
    omega
  all_goals
    rw [hc]
    decide

theorem isPlain_of_isLower {c : Char} (hc : c.isLower = true) : isPlain c = true := by
  have hletter : ('a' ≤ c && c ≤ 'z') = true := hc
  simp only [isPlain, isLetter, hletter, Bool.true_or]

-- What holds of the plain ones among the first characters, looked up by two digits, holds of all plain ones.
theorem of_isPlain {P : Char → Prop}
    (h : ∀ high < 8, ∀ low < 16, isPlain (Char.ofNat (16 * high + low)) = true →
      P (Char.ofNat (16 * high + low)))
    {c : Char} (hc : isPlain c = true) : P c := by
  have hlt := toNat_lt_of_isPlain hc
  have hdigits := h (c.toNat / 16) (by omega) (c.toNat % 16) (by omega)
  rw [Nat.div_add_mod, Char.ofNat_toNat] at hdigits
  exact hdigits hc

/-- The characters that open, end or escape some part of a URI. -/
def reserved : List Char :=
  [':', '@', '[', '/', '\\', '?', '#', '%']

/-- The character stands for itself wherever it stands. -/
structure Inert (c : Char) : Prop where
  visible : ¬c ≤ ' '
  solid : isBreak c = false
  apart : ∀ d ∈ reserved, c ≠ d
  path : escapedInPath c = false
  host : forbiddenInHost c = false ∧ isControl c = false
  -- A domain is made of bytes.
  bytes : String.utf8EncodeChar c = [UInt8.ofNat c.toNat]
  ofByte : Char.ofNat (UInt8.ofNat c.toNat).toNat = c
  domain : forbiddenInDomain (UInt8.ofNat c.toNat) = false

theorem inert_of_isPlain {c : Char} (hc : isPlain c = true) : Inert c where
  visible := of_isPlain (P := fun c => ¬c ≤ ' ') (by decide +kernel) hc
  solid := of_isPlain (P := fun c => isBreak c = false) (by decide +kernel) hc
  apart := fun _ hd heq => of_isPlain (P := fun c => c ∉ reserved) (by decide +kernel) hc (heq ▸ hd)
  path := of_isPlain (P := fun c => escapedInPath c = false) (by decide +kernel) hc
  host := of_isPlain (P := fun c => forbiddenInHost c = false ∧ isControl c = false) (by decide +kernel) hc
  bytes := of_isPlain (P := fun c => String.utf8EncodeChar c = [UInt8.ofNat c.toNat]) (by decide +kernel) hc
  ofByte := of_isPlain (P := fun c => Char.ofNat (UInt8.ofNat c.toNat).toNat = c) (by decide +kernel) hc
  domain := of_isPlain (P := fun c => forbiddenInDomain (UInt8.ofNat c.toNat) = false) (by decide +kernel) hc

theorem Inert.isSeparator {c : Char} (h : Inert c) (k : Kind) : k.isSeparator c = false := by
  simp [Kind.isSeparator, h.apart '/' (by decide), h.apart '\\' (by decide)]

theorem Inert.endsAuthority {c : Char} (h : Inert c) (k : Kind) : k.endsAuthority c = false := by
  simp [Kind.endsAuthority, h.isSeparator, h.apart '?' (by decide), h.apart '#' (by decide)]

/-! ## Separated texts -/

section

variable {p : Char → Bool} {separator : Char} {cs : List Char}

theorem splitBy_ne_nil (cs : List Char) : splitBy p cs ≠ [] := by
  cases cs with
  | nil => exact List.cons_ne_nil _ _
  | cons c cs =>
    rw [splitBy]
    split
    · exact List.cons_ne_nil _ _
    · split <;> exact List.cons_ne_nil _ _

theorem splitBy_cons_of_separator {c : Char} (hc : p c = true) (cs : List Char) :
    splitBy p (c :: cs) = [] :: splitBy p cs := by
  rw [splitBy, if_pos hc]

theorem splitBy_cons_of_not {c : Char} (hc : p c = false) {part : List Char}
    {parts : List (List Char)} (hcs : splitBy p cs = part :: parts) :
    splitBy p (c :: cs) = (c :: part) :: parts := by
  rw [splitBy, if_neg (by rw [hc]; decide), hcs]

-- The first part is one character longer with each that is no separator.
theorem exists_splitBy_cons {c : Char} (hc : p c = false) (cs : List Char) :
    ∃ part parts, splitBy p cs = part :: parts ∧
      splitBy p (c :: cs) = (c :: part) :: parts := by
  obtain ⟨part, parts, hcs⟩ := List.exists_cons_of_ne_nil (splitBy_ne_nil (p := p) cs)
  exact ⟨part, parts, hcs, splitBy_cons_of_not hc hcs⟩

theorem splitBy_append_cons (hseparator : p separator = true) (cs ds : List Char) :
    splitBy p (cs ++ separator :: ds) = splitBy p cs ++ splitBy p ds := by
  induction cs with
  | nil => exact splitBy_cons_of_separator hseparator ds
  | cons c cs ih =>
    rw [List.cons_append]
    cases hc : p c with
    | true => rw [splitBy_cons_of_separator hc, splitBy_cons_of_separator hc, ih, List.cons_append]
    | false =>
      obtain ⟨part, parts, hcs, hparts⟩ := exists_splitBy_cons hc cs
      rw [hparts, List.cons_append]
      refine splitBy_cons_of_not hc ?_
      rw [ih, hcs, List.cons_append]

theorem splitBy_of_none (h : ∀ c ∈ cs, p c = false) : splitBy p cs = [cs] := by
  induction cs with
  | nil => rfl
  | cons c cs ih =>
    exact splitBy_cons_of_not (h c List.mem_cons_self) (ih fun d hd => h d (List.mem_cons_of_mem c hd))

theorem splitBy_congr {p' : Char → Bool} (h : ∀ c ∈ cs, p c = p' c) :
    splitBy p cs = splitBy p' cs := by
  induction cs with
  | nil => rfl
  | cons c cs ih =>
    rw [splitBy, splitBy, h c List.mem_cons_self, ih fun d hd => h d (List.mem_cons_of_mem c hd)]

theorem joinBy_splitBy (separator : Char) (cs : List Char) :
    joinBy separator (splitBy (· = separator) cs) = cs := by
  induction cs with
  | nil => rfl
  | cons c cs ih =>
    by_cases hc : c = separator
    · rw [splitBy_cons_of_separator (decide_eq_true hc), joinBy, ih, hc]
      · rfl
      · exact splitBy_ne_nil cs
    · obtain ⟨part, parts, hcs, hparts⟩ :=
        exists_splitBy_cons (p := (· = separator)) (decide_eq_false hc) cs
      rw [hparts]
      rw [hcs] at ih
      cases parts with
      | nil => rw [joinBy] at ih ⊢; rw [ih]
      | cons next parts =>
        rw [joinBy] at ih ⊢
        · rw [List.cons_append, ih]
        · exact List.cons_ne_nil _ _
        · exact List.cons_ne_nil _ _

-- Every character is a separator or stands in a part.
theorem mem_splitBy {c : Char} (hc : c ∈ cs) :
    p c = true ∨ ∃ part ∈ splitBy p cs, c ∈ part := by
  induction cs with
  | nil => cases hc
  | cons d cs ih =>
    cases hd : p d with
    | true =>
      rw [splitBy_cons_of_separator hd]
      rcases List.mem_cons.mp hc with rfl | hc
      · exact .inl hd
      · exact (ih hc).imp_right fun ⟨part, hpart, hmem⟩ => ⟨part, List.mem_cons_of_mem _ hpart, hmem⟩
    | false =>
      obtain ⟨first, parts, hcs, hparts⟩ := exists_splitBy_cons hd cs
      rw [hparts]
      rcases List.mem_cons.mp hc with rfl | hc
      · exact .inr ⟨_, List.mem_cons_self, List.mem_cons_self⟩
      · refine (ih hc).imp_right fun ⟨part, hpart, hmem⟩ => ?_
        rw [hcs] at hpart
        rcases List.mem_cons.mp hpart with rfl | hpart
        · exact ⟨_, List.mem_cons_self, List.mem_cons_of_mem d hmem⟩
        · exact ⟨part, List.mem_cons_of_mem _ hpart, hmem⟩

theorem mem_joinBy {parts : List (List Char)} {c : Char} (hc : c ∈ joinBy separator parts) :
    c = separator ∨ ∃ part ∈ parts, c ∈ part := by
  induction parts using joinBy.induct with
  | case1 => cases hc
  | case2 part => exact .inr ⟨part, List.mem_singleton_self part, hc⟩
  | case3 part parts hparts ih =>
    rw [joinBy] at hc
    · rcases List.mem_append.mp hc with hc | hc
      · exact .inr ⟨part, List.mem_cons_self, hc⟩
      · rcases List.mem_cons.mp hc with rfl | hc
        · exact .inl rfl
        · exact (ih hc).imp_right fun ⟨p, hp, hc⟩ => ⟨p, List.mem_cons_of_mem part hp, hc⟩
    · exact hparts

end

/-! ## Paths -/

/-- Any number of plain characters that mean no place. -/
def isSegment (s : List Char) : Bool :=
  s.all isPlain && s != ['.'] && s != ['.', '.']

/-- Segments between slashes, of which some may be empty. -/
def isPath (path : List Char) : Bool :=
  (splitBy (· = '/') path).all isSegment

section

variable {s path : List Char}

theorem isPlain_of_isSegment (hs : isSegment s = true) : ∀ c ∈ s, isPlain c = true := by
  simp only [isSegment, Bool.and_eq_true] at hs
  exact List.all_eq_true.mp hs.1.1

theorem isPath_append (path more : List Char) :
    isPath (path ++ '/' :: more) = (isPath path && isPath more) := by
  rw [isPath, splitBy_append_cons (by decide), List.all_append]
  rfl

theorem isPath_of_isSegment (hs : isSegment s = true) : isPath s = true := by
  have hsolid : ∀ c ∈ s, decide (c = '/') = false := fun c hc =>
    decide_eq_false ((inert_of_isPlain (isPlain_of_isSegment hs c hc)).apart '/' (by decide))
  rw [isPath, splitBy_of_none hsolid, List.all_cons, hs]
  rfl

-- Slashes at the start do not matter.
theorem isPath_dropWhile (hpath : isPath path = true) : isPath (path.dropWhile (· = '/')) = true := by
  induction path with
  | nil => exact hpath
  | cons c path ih =>
    rw [List.dropWhile_cons]
    by_cases hc : c = '/'
    · rw [if_pos (decide_eq_true hc)]
      rw [hc] at hpath
      exact ih (Bool.and_eq_true_iff.mp ((isPath_append [] path).symm.trans hpath)).2
    · rw [if_neg (by simpa using hc)]
      exact hpath

theorem mem_of_isPath (hpath : isPath path = true) {c : Char} (hc : c ∈ path) :
    c = '/' ∨ isPlain c = true := by
  rcases mem_splitBy (p := (· = '/')) hc with hslash | ⟨s, hs, hmem⟩
  · exact .inl (of_decide_eq_true hslash)
  · exact .inr (isPlain_of_isSegment (List.all_eq_true.mp hpath s hs) c hmem)

theorem withoutBreaks_eq (h : ∀ c ∈ s, isBreak c = false) : withoutBreaks s = s := by
  refine List.filter_eq_self.mpr fun c hc => ?_
  rw [h c hc]
  rfl

theorem escape_eq {set : Char → Bool} (h : ∀ c ∈ s, set c = false) : escape set s = s := by
  induction s with
  | nil => rfl
  | cons c s ih =>
    have hc := h c List.mem_cons_self
    have hs := ih fun d hd => h d (List.mem_cons_of_mem c hd)
    rw [escape] at hs ⊢
    rw [List.flatMap_cons, if_neg (by rw [hc]; decide), hs]
    rfl

-- No place is meant by a segment, be it escaped or not.
theorem dots_of_isSegment (hs : isSegment s = true) : isSingleDot s = false ∧ isDoubleDot s = false := by
  have hplain := isPlain_of_isSegment hs
  have hpercent : '%' ∉ s.map Char.toLower := by
    intro h
    obtain ⟨c, hc, hlower⟩ := List.mem_map.mp h
    exact of_isPlain (P := fun c => c.toLower ≠ '%') (by decide +kernel) (hplain c hc) hlower
  have hpoints : s.map Char.toLower = ['.', '.'] → s = ['.', '.'] := by
    intro h
    have hpoint : ∀ c ∈ s, c = '.' := by
      intro c hc
      have hlower : c.toLower ∈ ['.', '.'] := h ▸ List.mem_map_of_mem hc
      have hlower : c.toLower = '.' := by simpa using hlower
      exact of_isPlain (P := fun c => c.toLower = '.' → c = '.') (by decide +kernel) (hplain c hc) hlower
    have hlength : s.length = 2 := by simpa using congrArg List.length h
    exact List.eq_replicate_iff.mpr ⟨hlength, hpoint⟩
  have hother : ∀ {text : List Char}, '%' ∈ text → s.map Char.toLower ≠ text := by
    rintro text hmem rfl
    exact hpercent hmem
  simp only [isSegment, Bool.and_eq_true, bne_iff_ne, ne_eq] at hs
  simp only [isSingleDot, isDoubleDot, Bool.or_eq_false_iff, beq_eq_false_iff_ne]
  exact ⟨⟨hs.1.2, hother (by decide)⟩,
    ⟨⟨fun h => hs.2 (hpoints h), hother (by decide)⟩, hother (by decide)⟩, hother (by decide)⟩

-- A segment goes one step inward.
theorem follow_cons (hs : isSegment s = true) (t : Trail) (rest : List (List Char)) :
    t.follow false (s :: rest) = Trail.follow false { t with inward := s :: t.inward } rest := by
  have hplain := isPlain_of_isSegment hs
  have hbreaks : withoutBreaks s = s := withoutBreaks_eq fun c hc => (inert_of_isPlain (hplain c hc)).solid
  have hescape : escape escapedInPath s = s := escape_eq fun c hc => (inert_of_isPlain (hplain c hc)).path
  obtain ⟨hsingle, hdouble⟩ := dots_of_isSegment hs
  have hinto : t.into false s = { t with inward := s :: t.inward } := by
    rw [Trail.into, hbreaks, hescape]
    rfl
  rw [Trail.follow, hbreaks, hsingle, hdouble, hinto]
  rfl

theorem follow_segments {parts : List (List Char)} (hparts : parts.all isSegment = true) (t : Trail) :
    (t.follow false parts).segments = t.segments ++ parts := by
  induction parts generalizing t with
  | nil => exact (List.append_nil _).symm
  | cons s parts ih =>
    obtain ⟨hs, hparts⟩ := Bool.and_eq_true_iff.mp hparts
    rw [follow_cons hs, ih hparts]
    simp [Trail.segments]

theorem readPath_of_isPath (k : Kind) (hpath : isPath path = true) :
    readPath k ('/' :: path) = '/' :: path := by
  have hslash : k.isSeparator '/' = true := rfl
  have hsplit : splitBy k.isSeparator path = splitBy (· = '/') path := by
    refine splitBy_congr fun c hc => ?_
    rcases mem_of_isPath hpath hc with rfl | hplain
    · rfl
    · have hc := inert_of_isPlain hplain
      rw [hc.isSeparator, decide_eq_false (hc.apart '/' (by decide))]
  have htrail : (followPath false k.isSeparator path).segments = splitBy (· = '/') path := by
    rw [followPath, hsplit, follow_segments hpath]
    rfl
  have hkept : dropSeparator k.isSeparator ('/' :: path) = path := by
    rw [dropSeparator, if_pos hslash]
  rw [readPath, if_neg (by simp), hkept, htrail, pathText, joinBy_splitBy]

end

/-! ## Names -/

/-- Letters in lower case, digits and hyphens behind a letter. What starts with `xn--` stands for other
characters, and is no label here. -/
def isLabel (label : List Char) : Bool :=
  label.head?.any Char.isLower && label.all (fun c => c.isLower || c.isDigit || c == '-') &&
    !"xn--".toList.isPrefixOf label

/-- Labels between points. -/
def isName (name : List Char) : Bool :=
  (splitBy (· = '.') name).all isLabel

section

variable {label name : List Char}

-- What stands in a name is plain, and in lower case.
theorem mem_of_isName (hname : isName name = true) {c : Char} (hc : c ∈ name) :
    isPlain c = true ∧ c.toLower = c := by
  have hlabel : c.isLower = true ∨ c.isDigit = true ∨ c = '-' ∨ c = '.' := by
    rcases mem_splitBy (p := (· = '.')) hc with hpoint | ⟨label, hlabel, hmem⟩
    · exact .inr (.inr (.inr (of_decide_eq_true hpoint)))
    · have hchars := List.all_eq_true.mp hname label hlabel
      simp only [isLabel, Bool.and_eq_true] at hchars
      have := List.all_eq_true.mp hchars.1.2 c hmem
      simp only [Bool.or_eq_true, beq_iff_eq] at this
      rcases this with (h | h) | h
      · exact .inl h
      · exact .inr (.inl h)
      · exact .inr (.inr (.inl h))
  have hplain : isPlain c = true := by
    rcases hlabel with h | h | h | h
    · exact isPlain_of_isLower h
    · simp [isPlain, h]
    · simp [isPlain, h]
    · simp [isPlain, h]
  refine ⟨hplain, ?_⟩
  revert hlabel
  exact of_isPlain (P := fun c => c.isLower = true ∨ c.isDigit = true ∨ c = '-' ∨ c = '.' → c.toLower = c)
    (by decide +kernel) hplain

-- A label is no number in any base.
theorem label_not_number (hlabel : isLabel label = true) :
    ((!label.isEmpty && label.all Char.isDigit) || (ipv4Part? label).isSome) = false := by
  cases label with
  | nil => cases hlabel
  | cons c label =>
    simp only [isLabel, Bool.and_eq_true, List.head?_cons, Option.any_some] at hlabel
    have hlower := hlabel.1.1
    have hletter : c.isDigit = false ∧ c ≠ '0' ∧ (Text.hexValue? c).all (10 ≤ ·) = true := by
      have hplain := isPlain_of_isLower hlower
      revert hlower
      exact of_isPlain (P := fun c => c.isLower = true →
        c.isDigit = false ∧ c ≠ '0' ∧ (Text.hexValue? c).all (10 ≤ ·) = true) (by decide +kernel) hplain
    obtain ⟨hdigit, hzero, hvalue⟩ := hletter
    have hpart : ipv4Part? (c :: label) = none := by
      unfold ipv4Part?
      split
      · next heq => cases heq
      · next heq => exact absurd (List.cons.inj heq).1 hzero
      · rw [ofBase?, List.foldlM_cons]
        cases hd : Text.hexValue? c with
        | none => rfl
        | some d =>
          have hten : 10 ≤ d := by simpa [hd] using hvalue
          simp [Nat.not_lt.mpr hten]
    simp [hdigit, hpart]

theorem not_endsInNumber (hname : isName name = true) : endsInNumber name = false := by
  have hlabels : ∀ label ∈ splitBy (· = '.') name, isLabel label = true := List.all_eq_true.mp hname
  have hparts : dotParts name = splitBy (· = '.') name := by
    have hlast : (splitBy (· = '.') name).getLast? ≠ some [] := fun h =>
      nomatch hlabels [] (List.mem_of_getLast? h)
    rw [dotParts, if_neg hlast]
  rw [endsInNumber, hparts]
  cases hlast : (splitBy (· = '.') name).getLast? with
  | none => rfl
  | some label => exact label_not_number (hlabels label (List.mem_of_getLast? hlast))

theorem ne_nil_of_isName (hname : isName name = true) : name ≠ [] := by
  rintro rfl
  cases hname

theorem unescape_eq (h : ∀ c ∈ name, isPlain c = true) :
    unescape name = name.map fun c => UInt8.ofNat c.toNat := by
  induction name with
  | nil => rfl
  | cons c name ih =>
    have hc := inert_of_isPlain (h c List.mem_cons_self)
    have hcons : unescape (c :: name) = String.utf8EncodeChar c ++ unescape name := by
      rw [unescape]
      exact fun _ _ _ heq => absurd heq (hc.apart '%' (by decide))
    rw [hcons, hc.bytes, ih fun d hd => h d (List.mem_cons_of_mem c hd)]
    rfl

theorem specialHost_of_isName (hname : isName name = true) :
    specialHost asciiDomain name = .ok name := by
  have hmem : ∀ c ∈ name, isPlain c = true := fun c hc => (mem_of_isName hname hc).1
  have hdomain : asciiDomain (unescape name) = .ok name := by
    have hallowed : (unescape name).any forbiddenInDomain = false := by
      rw [unescape_eq hmem, List.any_map]
      exact List.any_eq_false.mpr fun c hc => by simp [(inert_of_isPlain (hmem c hc)).domain]
    have hkept : (unescape name).map (fun b => (Char.ofNat b.toNat).toLower) = name := by
      rw [unescape_eq hmem, List.map_map]
      refine (List.map_congr_left fun c hc => ?_).trans (List.map_id name)
      exact (congrArg Char.toLower (inert_of_isPlain (hmem c hc)).ofByte).trans (mem_of_isName hname hc).2
    rw [asciiDomain, hallowed, hkept]
    rfl
  unfold specialHost
  split
  · next heq => exact absurd rfl ((inert_of_isPlain (hmem '[' List.mem_cons_self)).apart '[' (by decide))
  · have hfilled : name.isEmpty = false := by simpa using ne_nil_of_isName hname
    simp only [hdomain, bind, Except.bind, not_endsInNumber hname, hfilled]
    rfl

theorem otherHost_of_isName (hname : isName name = true) : otherHost name = .ok name := by
  have hinert : ∀ c ∈ name, Inert c := fun c hc => inert_of_isPlain (mem_of_isName hname hc).1
  have hallowed : name.any forbiddenInHost = false :=
    List.any_eq_false.mpr fun c hc => by simp [(hinert c hc).host.1]
  unfold otherHost
  split
  · exact absurd rfl ((hinert '[' List.mem_cons_self).apart '[' (by decide))
  · rw [hallowed, escape_eq fun c hc => (hinert c hc).host.2]
    rfl

end

end Ipp.Uri
