import Ipp.Proofs.Numerals
import Ipp.Proofs.Uri.Plain

/-!
# Reading plain URIs

A plain URI has one of the schemes under which an engine is served, a name, perhaps a port, and a path. It
is read as it is written, but for a port that is the default of its scheme (`Plain.read_text`). The last
segment of its path is then its base name.
-/

namespace Ipp

namespace Uri

theorem isSegment_decimal (n : Nat) : isSegment (Text.decimal n).toList = true := by
  have hdigits : ∀ c ∈ Nat.toDigits 10 n, c.isDigit = true := fun c => Text.isDigit_of_mem_toDigits
  have hplain : (Nat.toDigits 10 n).all isPlain = true :=
    List.all_eq_true.mpr fun c hc => by simp [isPlain, hdigits c hc]
  have hpoint : '.' ∉ Nat.toDigits 10 n := fun h => absurd (hdigits '.' h) (by decide)
  rw [Text.decimal, String.toList_ofList, isSegment, hplain, Bool.true_and, Bool.and_eq_true, bne_iff_ne,
    bne_iff_ne]
  exact ⟨fun h => hpoint (by simp [h]), fun h => hpoint (by simp [h])⟩

/-! ## Spellings -/

/-- The parts of a plain URI as they are written. The path stands behind a slash of its own. -/
structure Plain where
  scheme : List Char
  name : List Char
  port : Option Nat
  path : List Char
  scheme_served : scheme = ['i', 'p', 'p'] ∨ scheme = ['h', 't', 't', 'p']
  name_labels : isName name = true
  port_le : ∀ p ∈ port, p ≤ 65535
  path_segments : isPath path = true

namespace Plain

-- What is written behind the name.
def behindName (u : Plain) : List Char :=
  (u.port.elim [] fun p => ':' :: Nat.toDigits 10 p) ++ '/' :: u.path

def text (u : Plain) : List Char :=
  u.scheme ++ ':' :: '/' :: '/' :: (u.name ++ u.behindName)

/-- What the text is read as. -/
def uri (u : Plain) : Uri :=
  { scheme := String.ofList u.scheme
    host := String.ofList u.name
    port := u.port.filter fun p => defaultPort? (String.ofList u.scheme) != some p
    path := String.ofList ('/' :: u.path)
    query := none
    fragment := none }

variable (u : Plain)

theorem name_plain {c : Char} (hc : c ∈ u.name) : Inert c :=
  inert_of_isPlain (mem_of_isName u.name_labels hc).1

-- Behind the scheme there are plain characters, slashes and perhaps a colon.
theorem mem_rest {c : Char} (hc : c ∈ '/' :: '/' :: (u.name ++ u.behindName)) :
    c = '/' ∨ c = ':' ∨ Inert c := by
  have hdigit : ∀ p, c ∈ Nat.toDigits 10 p → Inert c := fun p hp =>
    inert_of_isPlain (by simp [isPlain, Text.isDigit_of_mem_toDigits hp])
  have hpath : c ∈ u.path → c = '/' ∨ c = ':' ∨ Inert c := fun hmem =>
    (mem_of_isPath u.path_segments hmem).imp_right fun h => .inr (inert_of_isPlain h)
  simp only [behindName, List.mem_cons, List.mem_append] at hc
  rcases hc with rfl | rfl | hname | hport | rfl | hc
  · exact .inl rfl
  · exact .inl rfl
  · exact .inr (.inr (u.name_plain hname))
  · cases hp : u.port with
    | none => simp [hp] at hport
    | some p =>
      simp only [hp, Option.elim_some, List.mem_cons] at hport
      rcases hport with rfl | hport
      · exact .inr (.inl rfl)
      · exact .inr (.inr (hdigit p hport))
  · exact .inl rfl
  · exact hpath hc

theorem solid_rest {c : Char} (hc : c ∈ '/' :: '/' :: (u.name ++ u.behindName)) :
    ¬c ≤ ' ' ∧ isBreak c = false ∧ c ≠ '@' ∧ c ≠ '?' ∧ c ≠ '#' := by
  rcases u.mem_rest hc with rfl | rfl | h
  · decide
  · decide
  · exact ⟨h.visible, h.solid, h.apart '@' (by decide), h.apart '?' (by decide), h.apart '#' (by decide)⟩

/-! ## The scheme -/

theorem scheme_plain : ∀ c ∈ u.scheme, isPlain c = true := by
  refine List.all_eq_true.mp ?_
  rcases u.scheme_served with h | h <;> rw [h] <;> decide

theorem visible_text {c : Char} (hc : c ∈ u.text) : ¬c ≤ ' ' := by
  rcases List.mem_append.mp hc with hscheme | hrest
  · exact (inert_of_isPlain (u.scheme_plain c hscheme)).visible
  · rcases List.mem_cons.mp hrest with rfl | hrest
    · decide
    · exact (u.solid_rest hrest).1

theorem trimmed_text : trimmed u.text = u.text := by
  have hkept : ∀ cs : List Char, (∀ c ∈ cs, ¬c ≤ ' ') → cs.dropWhile (· ≤ ' ') = cs := by
    intro cs hcs
    cases cs with
    | nil => rfl
    | cons c cs => rw [List.dropWhile_cons, if_neg (by simpa using hcs c List.mem_cons_self)]
  rw [trimmed, hkept u.text fun _ => u.visible_text,
    hkept u.text.reverse fun _ hc => u.visible_text (List.mem_reverse.mp hc), List.reverse_reverse]

theorem readScheme_text :
    readScheme u.text = some (u.scheme, '/' :: '/' :: (u.name ++ u.behindName)) := by
  rw [text]
  rcases u.scheme_served with h | h <;> rw [h] <;> rfl

theorem spellsAuthority_text : spellsAuthority u.text (String.ofList u.scheme) = true := by
  rw [text]
  rcases u.scheme_served with h | h <;> rw [h] <;> rfl

/-! ## The authority -/

-- What follows the name is a colon or a slash.
theorem hostText_name (k : Kind) : hostText k false (u.name ++ u.behindName) = u.name := by
  have hrest : hostText k false u.behindName = [] := by
    rw [behindName]
    cases u.port with
    | none =>
      rw [Option.elim_none, List.nil_append, hostText, if_pos]
      rfl
    | some p =>
      rw [Option.elim_some, List.cons_append, hostText, if_pos]
      exact Bool.or_true _
  suffices h : ∀ name : List Char, (∀ c ∈ name, Inert c) →
      hostText k false (name ++ u.behindName) = name from h u.name fun c hc => u.name_plain hc
  intro name hname
  induction name with
  | nil => exact hrest
  | cons c name ih =>
    have hc := hname c List.mem_cons_self
    have hcolon := hc.apart ':' (by decide)
    have hbracket := hc.apart '[' (by decide)
    have houtside : ((false || c == '[') && c != ']') = false := by simp [hbracket]
    rw [List.cons_append, hostText, if_neg (by simp [hc.endsAuthority, hcolon]), houtside,
      ih fun d hd => hname d (List.mem_cons_of_mem c hd)]

theorem readPort_digits {p : Nat} (hp : p ≤ 65535) :
    readPort u.scheme (Nat.toDigits 10 p ++ '/' :: u.path) =
      .ok ((some p).filter fun p => defaultPort? (String.ofList u.scheme) != some p, '/' :: u.path) := by
  have hdigits : ∀ c ∈ Nat.toDigits 10 p, c.isDigit = true := fun c => Text.isDigit_of_mem_toDigits
  have htake : (Nat.toDigits 10 p ++ '/' :: u.path).takeWhile Char.isDigit = Nat.toDigits 10 p := by
    rw [List.takeWhile_append_of_pos hdigits]
    simp
  have hdrop : (Nat.toDigits 10 p ++ '/' :: u.path).dropWhile Char.isDigit = '/' :: u.path := by
    rw [List.dropWhile_append_of_pos hdigits]
    simp
  have hport : readPort.port u.scheme p (Nat.toDigits 10 p) =
      (some p).filter fun p => defaultPort? (String.ofList u.scheme) != some p := by
    have hfilled : (Nat.toDigits 10 p).isEmpty = false := by simp
    rw [readPort.port, hfilled, Option.filter_some, bne]
    cases defaultPort? (String.ofList u.scheme) == some p <;> rfl
  unfold readPort
  simp only [htake, hdrop, Text.ofDigits_toDigits, hport]
  rw [if_neg (Nat.not_lt.mpr hp)]
  rfl

theorem readHost_text (k : Kind) :
    readHost asciiDomain k u.scheme false (u.name ++ u.behindName) =
      .ok ({ host := u.name, port := u.uri.port }, '/' :: u.path) := by
  have hfilled : u.name.isEmpty = false := by simpa using ne_nil_of_isName u.name_labels
  unfold readHost
  simp only [hostText_name, List.drop_left, hfilled, specialHost_of_isName u.name_labels,
    otherHost_of_isName u.name_labels, ite_self, Bool.false_and, Bool.false_eq_true, if_false]
  rw [behindName, uri]
  cases hp : u.port with
  | none => rfl
  | some p =>
    have hport := u.readPort_digits (u.port_le p hp)
    simp only [Option.elim_some, List.cons_append]
    exact congrArg (· >>= fun x : Option Nat × List Char =>
      Except.ok (({ host := u.name, port := x.1 } : Authority), x.2)) hport

theorem readAuthority_text (k : Kind) :
    readAuthority asciiDomain k u.scheme (u.name ++ u.behindName) =
      .ok ({ host := u.name, port := u.uri.port }, '/' :: u.path) := by
  have huser : splitUser ((u.name ++ u.behindName).takeWhile (!k.endsAuthority ·)) = none := by
    rw [splitUser, if_neg]
    intro h
    have hmem : '@' ∈ u.name ++ u.behindName :=
      (List.takeWhile_prefix _).subset (List.contains_iff_mem.mp h)
    exact (u.solid_rest (List.mem_cons_of_mem _ (List.mem_cons_of_mem _ hmem))).2.2.1 rfl
  rw [readAuthority, huser]
  exact u.readHost_text k

/-! ## The whole -/

theorem finish_path (k : Kind) :
    readRest.finish u.scheme k { host := u.name, port := u.uri.port } ('/' :: u.path) = u.uri := by
  have hpath : ∀ c ∈ '/' :: u.path, (decide (c ≠ '?') && decide (c ≠ '#')) = true := by
    intro c hc
    have hmem : c ∈ '/' :: '/' :: (u.name ++ u.behindName) := by
      simp only [behindName, List.mem_cons, List.mem_append] at hc ⊢
      exact .inr (.inr (.inr (.inr hc)))
    simp [(u.solid_rest hmem).2.2.2]
  have htake : ('/' :: u.path ++ []).takeWhile (fun c => c ≠ '?' && c ≠ '#') = '/' :: u.path ++ [] :=
    List.takeWhile_append_of_pos hpath
  have hdrop : ('/' :: u.path ++ []).dropWhile (fun c => c ≠ '?' && c ≠ '#') = [] :=
    List.dropWhile_append_of_pos hpath
  rw [List.append_nil] at htake hdrop
  unfold readRest.finish
  simp only [htake, hdrop, readPath_of_isPath k u.path_segments]
  rfl

-- The slashes in front of the name are all that is dropped there.
theorem dropWhile_slashes (k : Kind) :
    ('/' :: '/' :: (u.name ++ u.behindName)).dropWhile k.isSeparator = u.name ++ u.behindName := by
  obtain ⟨c, name, hname⟩ := List.exists_cons_of_ne_nil (ne_nil_of_isName u.name_labels)
  have hc : Inert c := u.name_plain (by rw [hname]; exact List.mem_cons_self)
  have hslash : k.isSeparator '/' = true := rfl
  rw [hname, List.dropWhile_cons_of_pos hslash, List.dropWhile_cons_of_pos hslash, List.cons_append,
    List.dropWhile_cons_of_neg (by simp [hc.isSeparator])]

theorem readRest_text :
    readRest asciiDomain u.scheme ('/' :: '/' :: (u.name ++ u.behindName)) = .ok (u.uri, false) := by
  have hsolid : withoutBreaks ('/' :: '/' :: (u.name ++ u.behindName)) =
      '/' :: '/' :: (u.name ++ u.behindName) := withoutBreaks_eq fun c hc => (u.solid_rest hc).2.1
  unfold readRest
  rcases u.scheme_served with h | h
  · have hkind : kind u.scheme = .other := by rw [h]; decide
    simp only [hkind, hsolid, readAuthority_text]
    exact congrArg (fun found => Except.ok (found, false)) (u.finish_path .other)
  · have hkind : kind u.scheme = .special := by rw [h]; decide
    simp only [hkind, hsolid, dropWhile_slashes, readAuthority_text]
    exact congrArg (fun found => Except.ok (found, false)) (u.finish_path .special)

/-- A plain URI is read as it is written, but for a port that is the default of its scheme. -/
theorem read_text : read asciiDomain u.text = .ok u.uri := by
  have hspelled : spellsAuthority u.text u.uri.scheme = true := u.spellsAuthority_text
  unfold read
  rw [trimmed_text, readScheme_text]
  simp only [readRest_text, bind, Except.bind, hspelled]
  rfl

theorem parse_text : Uri.parse (String.ofList u.text) = .ok u.uri := by
  rw [Uri.parse, parseWith, String.toList_ofList, read_text]

/-! ## Parts -/

-- A port that is left out is the default of the scheme.
theorem effectivePort_uri :
    u.uri.effectivePort = u.port.getD (if u.scheme = ['i', 'p', 'p'] then 631 else 80) := by
  rw [effectivePort, uri]
  rcases u.scheme_served with h | h <;> rw [h]
  · have hdefault : defaultPort? (String.ofList ['i', 'p', 'p']) = none := by decide
    simp only [hdefault, Option.or_none]
    cases u.port <;> rfl
  · have hdefault : defaultPort? (String.ofList ['h', 't', 't', 'p']) = some 80 := by decide
    simp only [hdefault]
    cases u.port with
    | none => rfl
    | some p =>
      by_cases hp : 80 = p
      · rw [← hp]
        rfl
      · simp [Option.filter_some, hp]

end Plain

/-! ## The last slash -/

section

variable {path last : List Char}

-- Both segments are looked for from the end.
theorem ne_slash_of_mem_reverse (hlast : '/' ∉ last) : ∀ c ∈ last.reverse, decide (c ≠ '/') = true :=
  fun _ hc => decide_eq_true fun h => hlast (h ▸ List.mem_reverse.mp hc)

theorem lastSegment_append (hlast : '/' ∉ last) : lastSegment (path ++ '/' :: last) = last := by
  rw [lastSegment, List.reverse_append, List.reverse_cons, List.append_assoc,
    List.takeWhile_append_of_pos (ne_slash_of_mem_reverse hlast)]
  simp

theorem beforeLastSegment_append (hlast : '/' ∉ last) : beforeLastSegment (path ++ '/' :: last) = path := by
  rw [beforeLastSegment, List.reverse_append, List.reverse_cons, List.append_assoc,
    List.dropWhile_append_of_pos (ne_slash_of_mem_reverse hlast)]
  simp

end

/-- The base name of a plain URI is the last segment of its path. -/
theorem Plain.basename?_uri (u : Plain) {front last : List Char}
    (hpath : '/' :: u.path = front ++ '/' :: last) (hsegment : isSegment last = true)
    (hfilled : last ≠ []) :
    u.uri.basename? = some (String.ofList last) := by
  have hlast : '/' ∉ last := fun h =>
    (inert_of_isPlain (isPlain_of_isSegment hsegment '/' h)).apart '/' (by decide) rfl
  have hpath' : u.uri.path = String.ofList (front ++ '/' :: last) := congrArg String.ofList hpath
  have hlong : 1 < u.uri.path.toList.length := by
    have := List.length_pos_iff.mpr hfilled
    rw [hpath', String.toList_ofList, List.length_append, List.length_cons]
    omega
  have hmore : u.uri.path? = some u.uri.path := by
    rw [path?, if_neg]
    intro h
    rw [Bool.or_eq_true, decide_eq_true_eq, decide_eq_true_eq] at h
    rcases h with h | h
    all_goals
      rw [h] at hlong
      exact absurd hlong (by decide)
  rw [basename?, hmore, Option.bind_some, hpath', String.toList_ofList, lastSegment_append hlast, nonEmpty?,
    if_neg (by simpa using hfilled)]

end Uri
end Ipp
