import Ipp.Proofs.Uri.Reading
import Ipp.Text.Utf8

/-!
# Parts of URIs

The path of a URI that was read is empty or starts with a slash, and no query and no fragment opens in it
(`uri_of_readRest`). So the names of a directory and a base, with a slash between them, make up the path. And
the text starts, but for white space, with the scheme and the mark of an authority: these are looked for by
length alone, but only a scheme without breaks fits (`exists_spelling`).
-/

namespace Ipp.Uri

theorem bind_eq_ok {ε α β : Type} {x : Except ε α} {f : α → Except ε β} {b : β} :
    (x >>= f) = .ok b ↔ ∃ a, x = .ok a ∧ f a = .ok b := by
  cases x with
  | ok a => exact ⟨fun h => ⟨a, rfl, h⟩, fun ⟨_, hx, hf⟩ => Except.ok.inj hx ▸ hf⟩
  | error e => exact ⟨fun h => (nomatch h), fun ⟨_, hx, _⟩ => (nomatch hx)⟩

/-! ## Escapes -/

theorem isAlphanum_upperDigit {n : Nat} (hn : n < 16) : (upperDigit n).isAlphanum = true := by
  revert n
  decide

theorem mem_escapeByte {b : UInt8} {c : Char} (hc : c ∈ escapeByte b) :
    c = '%' ∨ c.isAlphanum = true := by
  have hb := b.toNat_lt
  simp only [escapeByte, List.mem_cons, List.not_mem_nil, or_false] at hc
  rcases hc with rfl | rfl | rfl
  · exact .inl rfl
  · exact .inr (isAlphanum_upperDigit (by omega))
  · exact .inr (isAlphanum_upperDigit (by omega))

theorem mem_escape {set : Char → Bool} {cs : List Char} {c : Char} (hc : c ∈ escape set cs) :
    (c ∈ cs ∧ set c = false) ∨ c = '%' ∨ c.isAlphanum = true := by
  obtain ⟨d, hd, hc⟩ := List.mem_flatMap.mp hc
  split at hc
  · obtain ⟨b, -, hc⟩ := List.mem_flatMap.mp hc
    exact .inr (mem_escapeByte hc)
  · next hset =>
    obtain rfl := List.mem_singleton.mp hc
    exact .inl ⟨hd, by simpa using hset⟩

/-! ## Paths -/

/-- Neither a query nor a fragment opens in the text. -/
def StaysInPath (s : List Char) : Prop :=
  ∀ c ∈ s, c ≠ '?' ∧ c ≠ '#'

theorem staysInPath_escape (s : List Char) : StaysInPath (escape escapedInPath s) := by
  intro c hc
  constructor
  all_goals
    rintro rfl
    rcases mem_escape hc with ⟨-, hset⟩ | h | h
    · exact absurd hset (by decide)
    · exact absurd h (by decide)
    · exact absurd h (by decide)

-- A drive is a letter and a colon.
theorem staysInPath_drive {s drive rest : List Char} (h : partedDrive? s = some (drive, rest)) :
    StaysInPath drive := by
  unfold partedDrive? at h
  split at h
  · cases h
  · next letter _ _ =>
    split at h
    · split at h
      · next hparted =>
        cases h
        simp only [Bool.and_eq_true] at hparted
        have hletter := hparted.1.1
        intro c hc
        simp only [List.mem_cons, List.not_mem_nil, or_false] at hc
        rcases hc with rfl | rfl
        · constructor <;> rintro rfl <;> exact absurd hletter (by decide)
        · decide
      · cases h
    · cases h

theorem above_subset (segments : List (List Char)) : above segments ⊆ segments := by
  cases segments with
  | nil => exact List.Subset.refl _
  | cons s outer =>
    rw [above]
    split
    · exact List.Subset.refl _
    · exact List.subset_cons_self s outer

namespace Trail

/-- Neither a query nor a fragment opens in a segment. -/
def StaysInPath (t : Trail) : Prop :=
  ∀ s ∈ t.inward, Uri.StaysInPath s

variable {t : Trail}

theorem StaysInPath.up (ht : t.StaysInPath) : t.up.StaysInPath :=
  fun s hs => ht s (above_subset t.inward hs)

theorem StaysInPath.into (ht : t.StaysInPath) (inFile : Bool) (s : List Char) :
    (t.into inFile s).StaysInPath := by
  have hname := staysInPath_escape (withoutBreaks s)
  unfold Trail.into
  dsimp only
  split
  · split
    · next drive rest hdrive =>
      intro segment hsegment
      simp only [List.mem_cons, List.not_mem_nil, or_false] at hsegment
      rcases hsegment with rfl | rfl
      · exact staysInPath_escape rest
      · exact staysInPath_drive hdrive
    · split
      · intro segment hsegment c hc
        obtain rfl := List.mem_singleton.mp hsegment
        rcases List.mem_append.mp hc with hc | hc
        · exact hname c (List.mem_of_mem_take hc)
        · obtain rfl := List.mem_singleton.mp hc
          decide
      · exact List.forall_mem_singleton.mpr hname
  · exact List.forall_mem_cons.mpr ⟨hname, ht⟩

theorem StaysInPath.follow (ht : t.StaysInPath) (inFile : Bool) (parts : List (List Char)) :
    (t.follow inFile parts).StaysInPath := by
  induction parts generalizing t with
  | nil => exact ht
  | cons s rest ih =>
    rw [Trail.follow]
    dsimp only
    have hdots : (if isDoubleDot (withoutBreaks s) then t.up else t).StaysInPath := by
      split
      · exact ht.up
      · exact ht
    split
    · split
      · exact List.forall_mem_cons.mpr ⟨List.forall_mem_nil _, hdots⟩
      · exact ih hdots
    · exact ih (ht.into inFile s)

end Trail

theorem staysInPath_followPath (inFile : Bool) (isSeparator : Char → Bool) (text : List Char) :
    StaysInPath (joinBy '/' (followPath inFile isSeparator text).segments) := by
  have htrail : (followPath inFile isSeparator text).StaysInPath :=
    Trail.StaysInPath.follow (t := {}) (List.forall_mem_nil _) inFile (splitBy isSeparator text)
  intro c hc
  rcases mem_joinBy hc with rfl | ⟨s, hs, hc⟩
  · decide
  · exact htrail s (List.mem_reverse.mp hs) c hc

/-- A path as it is kept: empty or behind a slash, and no query and no fragment opens in it. -/
structure IsRooted (path : List Char) : Prop where
  slash : path = [] ∨ ∃ rest, path = '/' :: rest
  staysInPath : StaysInPath path

theorem isRooted_cons {rest : List Char} (hrest : StaysInPath rest) : IsRooted ('/' :: rest) where
  slash := .inr ⟨rest, rfl⟩
  staysInPath := List.forall_mem_cons.mpr ⟨by decide, hrest⟩

theorem isRooted_readPath (k : Kind) (text : List Char) : IsRooted (readPath k text) := by
  rw [readPath]
  split
  · exact ⟨.inl rfl, List.forall_mem_nil _⟩
  · exact isRooted_cons (staysInPath_followPath _ _ _)

section

variable {readDomain : DomainReader} {cs : List Char}

theorem isRooted_readFile {host path tail : List Char} (h : readFile readDomain cs = .ok (host, path, tail)) :
    IsRooted path := by
  have hrooted (text : List Char) : IsRooted ('/' ::
      (joinBy '/' (followPath true Kind.file.isSeparator text).segments).dropWhile (· = '/')) :=
    isRooted_cons fun c hc => staysInPath_followPath _ _ _ c ((List.dropWhile_suffix _).subset hc)
  unfold readFile at h
  dsimp only at h
  split at h
  · cases h
    exact hrooted _
  · obtain ⟨name, -, h⟩ := bind_eq_ok.mp h
    cases h
    exact hrooted _

/-- What is read behind a scheme has this scheme, and a path as it is kept. -/
theorem uri_of_readRest {scheme : List Char} {u : Uri} {hasUser : Bool}
    (h : readRest readDomain scheme cs = .ok (u, hasUser)) :
    u.scheme = String.ofList scheme ∧ IsRooted u.path.toList := by
  have hfinish (k : Kind) (authority : Authority) (rest : List Char) :
      IsRooted (readRest.finish scheme k authority rest).path.toList := by
    rw [readRest.finish, readRest.assemble, String.toList_ofList]
    exact isRooted_readPath k _
  unfold readRest at h
  dsimp only at h
  split at h
  · split at h
    · obtain ⟨⟨host, path, tail⟩, hfile, h⟩ := bind_eq_ok.mp h
      cases h
      refine ⟨rfl, ?_⟩
      rw [readRest.assemble, String.toList_ofList]
      exact isRooted_readFile hfile
    · cases h
  · obtain ⟨⟨authority, rest⟩, -, h⟩ := bind_eq_ok.mp h
    cases h
    exact ⟨rfl, hfinish _ _ _⟩
  · split at h
    · obtain ⟨⟨authority, rest⟩, -, h⟩ := bind_eq_ok.mp h
      cases h
      exact ⟨rfl, hfinish _ _ _⟩
    · cases h

end

/-! ## Names of directory and base -/

section

theorem nonEmpty?_eq_some {cs : List Char} {s : String} (h : nonEmpty? cs = some s) :
    s ≠ "" ∧ s.toList = cs := by
  cases cs with
  | nil => cases h
  | cons c cs =>
    cases h
    exact ⟨by simp, String.toList_ofList⟩

theorem nonEmpty?_getD (cs : List Char) : (nonEmpty? cs).getD "" = String.ofList cs := by
  cases cs <;> rfl

-- What stands in front of the last slash of a text and what stands behind it.
theorem exists_last_slash {path : List Char} (hpath : '/' ∈ path) :
    ∃ front last, path = front ++ '/' :: last ∧ '/' ∉ last := by
  obtain ⟨last, front, hreverse, hlast⟩ := List.eq_append_cons_of_mem (List.mem_reverse.mpr hpath)
  refine ⟨front.reverse, last.reverse, ?_, fun h => hlast (List.mem_reverse.mp h)⟩
  rw [← List.reverse_reverse path, hreverse, List.reverse_append, List.reverse_cons, List.append_assoc]
  rfl

variable {u : Uri}

theorem path?_eq_none : u.path? = none ↔ u.path = "" ∨ u.path = "/" := by
  rw [path?, ite_eq_left_iff, Bool.or_eq_true, decide_eq_true_iff, decide_eq_true_iff]
  constructor
  · intro h
    exact Decidable.byContradiction fun hmore => Option.some_ne_none _ (h hmore)
  · intro h hmore
    exact absurd h hmore

theorem path?_eq_some {path : String} (h : u.path? = some path) : path = u.path ∧ path ≠ "" := by
  have hmore : ¬(u.path = "" ∨ u.path = "/") := fun hnone =>
    nomatch (path?_eq_none.mpr hnone).symm.trans h
  rw [path?, if_neg (by simpa using hmore)] at h
  cases h
  exact ⟨rfl, fun hnil => hmore (.inl hnil)⟩

/-- The last slash of a path has the directory in front of it and the base behind it. -/
theorem exists_names (hu : IsRooted u.path.toList) {path : String} (hpath : u.path? = some path) :
    ∃ front last, path.toList = front ++ '/' :: last ∧ '/' ∉ last ∧ u.dirname? = nonEmpty? front ∧
      u.basename? = nonEmpty? last := by
  obtain ⟨rfl, hfilled⟩ := path?_eq_some hpath
  have hslash : '/' ∈ u.path.toList := by
    rcases hu.slash with hnil | ⟨rest, hrest⟩
    · exact absurd (String.toList_eq_nil_iff.mp hnil) hfilled
    · rw [hrest]
      exact List.mem_cons_self
  obtain ⟨front, last, hsplit, hlast⟩ := exists_last_slash hslash
  refine ⟨front, last, hsplit, hlast, ?_, ?_⟩
  · rw [dirname?, hpath, Option.bind_some, hsplit, beforeLastSegment_append hlast]
  · rw [basename?, hpath, Option.bind_some, hsplit, lastSegment_append hlast]

theorem ne_empty_of_dirname? {name : String} (h : u.dirname? = some name) : name ≠ "" := by
  obtain ⟨path, -, hname⟩ := Option.bind_eq_some_iff.mp h
  exact (nonEmpty?_eq_some hname).1

theorem of_basename? (hu : IsRooted u.path.toList) {name : String} (h : u.basename? = some name) :
    name ≠ "" ∧ ∀ c ∈ name.toList, c ≠ '/' ∧ c ≠ '?' ∧ c ≠ '#' := by
  obtain ⟨path, hpath, -⟩ := Option.bind_eq_some_iff.mp h
  obtain ⟨front, last, hsplit, hlast, -, hbase⟩ := exists_names hu hpath
  obtain ⟨hfilled, hname⟩ := nonEmpty?_eq_some (hbase.symm.trans h)
  rw [hname]
  refine ⟨hfilled, fun c hc => ⟨fun hslash => hlast (hslash ▸ hc), hu.staysInPath c ?_⟩⟩
  rw [← (path?_eq_some hpath).1, hsplit]
  exact List.mem_append_right front (List.mem_cons_of_mem '/' hc)

end

/-! ## Schemes -/

section

variable {cs scheme rest : List Char}

theorem eq_of_readScheme (h : readScheme cs = some (scheme, rest)) :
    ∃ spelled, cs = spelled ++ ':' :: rest ∧ (∀ c ∈ spelled, isSchemeChar c = true ∨ isBreak c = true) ∧
      scheme = (withoutBreaks spelled).map Char.toLower := by
  unfold readScheme at h
  dsimp only at h
  split at h
  · next c scheme' rest' hscheme hrest =>
    split at h
    · cases h
      refine ⟨_, ?_, ?_, congrArg (List.map Char.toLower) hscheme.symm⟩
      · rw [← hrest, List.takeWhile_append_dropWhile]
      · intro d hd
        exact Bool.or_eq_true_iff.mp (List.all_eq_true.mp List.all_takeWhile d hd)
    · cases h
  · cases h

theorem isBlank_of_isSchemeChar {c : Char} (hc : isSchemeChar c = true) : Text.isBlank c = false := by
  have hplain : isPlain c = true ∨ c = '+' := by
    simp only [isSchemeChar, isPlain, Bool.or_eq_true, beq_iff_eq] at hc ⊢
    rcases hc with ((hc | hc) | hc) | hc <;> simp [hc]
  rcases hplain with hplain | rfl
  · exact of_isPlain (P := fun c => Text.isBlank c = false) (by decide +kernel) hplain
  · decide

theorem le_of_isBreak {c : Char} (hc : isBreak c = true) : c ≤ ' ' := by
  simp only [isBreak, Bool.or_eq_true, beq_iff_eq] at hc
  rcases hc with (rfl | rfl) | rfl <;> decide

theorem trimmed_prefix (text : List Char) : trimmed text <+: text.dropWhile (· ≤ ' ') := by
  have hsuffix := List.dropWhile_suffix (l := (text.dropWhile (· ≤ ' ')).reverse) (· ≤ ' ')
  have hprefix := List.reverse_prefix.mpr hsuffix
  rwa [List.reverse_reverse] at hprefix

theorem dropWhile_append_of_kept {p : Char → Bool} {front behind : List Char}
    (h : behind.dropWhile p = behind) : (front ++ behind).dropWhile p = front.dropWhile p ++ behind := by
  rw [List.dropWhile_append, h]
  split
  · next hempty => rw [List.isEmpty_iff.mp hempty, List.nil_append]
  · rfl

/-- In front of the scheme there are blanks, behind which there may be controls. -/
theorem dropWhile_isBlank_eq {text : List Char} (h : readScheme (trimmed text) = some (scheme, rest)) :
    ∃ front spelled behind, text.dropWhile Text.isBlank = front ++ spelled ++ ':' :: behind ∧
      ':' ∉ front ++ spelled ∧ scheme = (withoutBreaks spelled).map Char.toLower := by
  obtain ⟨spelled, htrimmed, hspelled, hscheme⟩ := eq_of_readScheme h
  obtain ⟨tail, htail⟩ := trimmed_prefix text
  rw [htrimmed, List.append_assoc, List.cons_append] at htail
  have hsplit : text.takeWhile (· ≤ ' ') ++ (spelled ++ ':' :: (rest ++ tail)) = text := by
    rw [htail, List.takeWhile_append_dropWhile]
  have hkept : (spelled ++ ':' :: (rest ++ tail)).dropWhile Text.isBlank =
      spelled ++ ':' :: (rest ++ tail) := by
    cases spelled with
    | nil => exact List.dropWhile_cons_of_neg (by decide)
    | cons c spelled =>
      have hvisible := List.head?_dropWhile_not (· ≤ ' ') text
      rw [← htail] at hvisible
      have hc : isSchemeChar c = true := (hspelled c List.mem_cons_self).resolve_right fun hbreak =>
        of_decide_eq_false hvisible (le_of_isBreak hbreak)
      exact List.dropWhile_cons_of_neg (by simp [isBlank_of_isSchemeChar hc])
  refine ⟨(text.takeWhile (· ≤ ' ')).dropWhile Text.isBlank, spelled, rest ++ tail, ?_, ?_, hscheme⟩
  · rw [List.append_assoc, ← dropWhile_append_of_kept hkept, hsplit]
  · intro hcolon
    rcases List.mem_append.mp hcolon with hfront | hcolon
    · have hmem := (List.dropWhile_suffix _).subset hfront
      exact absurd (List.all_eq_true.mp List.all_takeWhile ':' hmem) (by decide)
    · exact absurd (hspelled ':' hcolon) (by decide)

theorem spellsAuthority_eq_true {text : List Char} {scheme : String} (h : spellsAuthority text scheme = true) :
    ∃ spelling behind, text.dropWhile Text.isBlank = spelling ++ ':' :: '/' :: '/' :: behind ∧
      spelling.length = scheme.length := by
  rw [spellsAuthority, beq_iff_eq] at h
  have hprefix := List.take_prefix 3 ((text.dropWhile Text.isBlank).drop scheme.length)
  rw [h] at hprefix
  obtain ⟨behind, hdrop⟩ := hprefix
  refine ⟨(text.dropWhile Text.isBlank).take scheme.length, behind, ?_, ?_⟩
  · conv => lhs; rw [← List.take_append_drop scheme.length (text.dropWhile Text.isBlank), ← hdrop]
    rfl
  · have hlength := congrArg List.length hdrop
    rw [List.length_append, List.length_drop] at hlength
    exact List.length_take_of_le (by simp only [List.length_cons] at hlength; omega)

-- What stands in front of the first of its kind, and is no longer than that, is the same.
theorem eq_of_append_cons {c : Char} {front front' behind behind' : List Char}
    (h : front ++ c :: behind = front' ++ c :: behind') (hc : c ∉ front')
    (hlength : front.length ≤ front'.length) : front = front' := by
  rcases List.append_eq_append_iff.mp h with ⟨more, rfl, hmore⟩ | ⟨more, rfl, -⟩
  · cases more with
    | nil => exact (List.append_nil front).symm
    | cons d more =>
      obtain rfl := (List.cons.inj hmore).1
      exact absurd (List.mem_append_right front List.mem_cons_self) hc
  · rw [List.length_append] at hlength
    have hnil : more = [] := List.length_eq_zero_iff.mp (by omega)
    rw [hnil, List.append_nil]

/-- The text spells the scheme, behind blanks and in front of an authority. -/
theorem exists_spelling {text : List Char} (hread : readScheme (trimmed text) = some (scheme, rest))
    (hspells : spellsAuthority text (String.ofList scheme) = true) :
    ∃ spelling behind, text.dropWhile Text.isBlank = spelling ++ ':' :: '/' :: '/' :: behind ∧
      spelling.map Char.toLower = scheme := by
  obtain ⟨front, spelled, behind, htext, hcolon, hscheme⟩ := dropWhile_isBlank_eq hread
  obtain ⟨spelling, behind', hspelling, hlength⟩ := spellsAuthority_eq_true hspells
  refine ⟨spelling, behind', hspelling, ?_⟩
  -- The first colon stands where a scheme of this length ends, so that there are no controls and no breaks.
  have hshort : spelling.length = (withoutBreaks spelled).length := by
    rw [hlength, String.length_ofList, hscheme, List.length_map]
  have hle : (withoutBreaks spelled).length ≤ spelled.length := List.length_filter_le _ _
  have hwhole : spelling = front ++ spelled := by
    refine eq_of_append_cons (hspelling.symm.trans htext) hcolon ?_
    rw [List.length_append]
    omega
  have hlengths : (withoutBreaks spelled).length = front.length + spelled.length := by
    rw [← hshort, hwhole, List.length_append]
  have hfront : front = [] := List.length_eq_zero_iff.mp (by omega)
  have hsolid : withoutBreaks spelled = spelled :=
    List.filter_sublist.eq_of_length_le (show spelled.length ≤ (withoutBreaks spelled).length by omega)
  rw [hscheme, hsolid, hwhole, hfront, List.nil_append]

end

/-! ## Whole URIs -/

/-- How the parts of a URI go together, and with the text that it is read from. -/
structure PartsAgree (text : String) (u : Uri) : Prop where
  path_absent : u.path? = none ↔ u.path = "" ∨ u.path = "/"
  path_joined : ∀ path, u.path? = some path →
    path = u.path ∧ path = u.dirname?.getD "" ++ "/" ++ u.basename?.getD ""
  base : ∀ name, u.basename? = some name → name ≠ "" ∧ ∀ c ∈ name.toList, c ≠ '/' ∧ c ≠ '?' ∧ c ≠ '#'
  directory : ∀ name, u.dirname? = some name → name ≠ ""
  -- The letters of the scheme may have either case.
  scheme_spelled : ∃ spelling rest,
    text.toList.dropWhile Text.isBlank = spelling ++ ':' :: '/' :: '/' :: rest ∧
      spelling.map Char.toLower = u.scheme.toList

theorem read_eq_ok {readDomain : DomainReader} {text : List Char} {u : Uri}
    (h : read readDomain text = .ok u) :
    ∃ scheme rest, readScheme (trimmed text) = some (scheme, rest) ∧ u.scheme = String.ofList scheme ∧
      IsRooted u.path.toList ∧ spellsAuthority text u.scheme = true := by
  unfold read at h
  split at h
  · cases h
  · next scheme rest hscheme =>
    obtain ⟨⟨u', hasUser⟩, hrest, h⟩ := bind_eq_ok.mp h
    dsimp only at h
    split at h
    · cases h
    · next hspelled =>
      split at h
      · cases h
      · cases h
        obtain ⟨hname, hrooted⟩ := uri_of_readRest hrest
        exact ⟨scheme, rest, hscheme, hname, hrooted, by simpa using hspelled⟩

/-- Whatever text is read, and whatever form domains have in ASCII, the parts agree. -/
theorem partsAgree_of_parseWith (readDomain : DomainReader) (text : String) (u : Uri)
    (h : parseWith readDomain text = .ok u) : PartsAgree text u := by
  have hread : read readDomain text.toList = .ok u := by
    unfold parseWith at h
    split at h
    · next heq =>
      cases h
      exact heq
    · cases h
  obtain ⟨scheme, rest, hscheme, hname, hrooted, hspelled⟩ := read_eq_ok hread
  exact {
    path_absent := path?_eq_none
    path_joined := fun path hpath => by
      obtain ⟨front, last, hsplit, -, hdirectory, hbase⟩ := exists_names hrooted hpath
      refine ⟨(path?_eq_some hpath).1, ?_⟩
      rw [hdirectory, hbase, nonEmpty?_getD, nonEmpty?_getD, ← String.toList_inj, hsplit]
      simp
    base := fun _ => of_basename? hrooted
    directory := fun _ => ne_empty_of_dirname?
    scheme_spelled := by
      rw [hname] at hspelled ⊢
      rw [String.toList_ofList]
      exact exists_spelling hscheme hspelled }

-- Knows one domain that is not ASCII.
def munichDomain : DomainReader := fun bytes =>
  if bytes = Text.utf8 "MÜNCHEN" then .ok "xn--mnchen-3ya".toList else asciiDomain bytes

-- A backslash, a step to the place above, two slashes in a row, and slashes behind the path.
def munichText : String :=
  "\t HTTP://MÜNCHEN\\printers/../jobs//café 1?q=/x#/y"

def munichUri : Uri where
  scheme := "http"
  host := "xn--mnchen-3ya"
  port := none
  path := "/jobs//caf%C3%A9%201"
  query := some "q=/x"
  fragment := some "/y"

theorem munich_partsAgree :
    parseWith munichDomain munichText = .ok munichUri ∧ munichUri.dirname? = some "/jobs/" ∧
      munichUri.basename? = some "caf%C3%A9%201" ∧ PartsAgree munichText munichUri := by
  have hparsed : parseWith munichDomain munichText = .ok munichUri := by decide +kernel
  exact ⟨hparsed, by decide +kernel, by decide +kernel, partsAgree_of_parseWith _ _ _ hparsed⟩

end Ipp.Uri
