import Ipp.Config
import Ipp.Proofs.Json

/-!
# Configuration files

A file that holds some of the settings as one JSON object, in any order, spelling and layout, is read as
these settings with the defaults for the others; what is saved is such a file, with all of them
(`config_kept_in_files`).
-/

namespace Ipp

/-! ## Settings -/

/-- A setting and its value. -/
inductive Setting where
  | root (s : String)
  | bufferSize (n : UInt64)
  | emitHeader (b : Bool)
  | traceRequests (b : Bool)
  deriving DecidableEq

namespace Setting

/-- The name of its field. -/
def key : Setting → String
  | root _ => "root"
  | bufferSize _ => "buffer_size"
  | emitHeader _ => "emit_header"
  | traceRequests _ => "trace_requests"

/-- The characters are the value in JSON. -/
def IsWritten : Setting → List Char → Prop
  | root s, cs => Json.Quotes cs s
  | bufferSize n, cs => cs = (Text.decimal n.toNat).toList
  | emitHeader b, cs | traceRequests b, cs => cs = (Json.boolText b).toList

-- No value starts with a blank.
theorem IsWritten.exists_cons {s : Setting} {cs : List Char} (h : s.IsWritten cs) :
    ∃ c more, cs = c :: more ∧ Json.isBlank c = false := by
  have hbool : ∀ b, ∃ c more, (Json.boolText b).toList = c :: more ∧ Json.isBlank c = false := fun b => by
    cases b <;> exact ⟨_, _, rfl, rfl⟩
  cases s with
  | root s =>
    obtain ⟨spelled, -, rfl⟩ := h
    exact ⟨_, _, rfl, rfl⟩
  | bufferSize n =>
    obtain rfl : cs = (Text.decimal n.toNat).toList := h
    rw [Text.decimal, String.toList_ofList]
    cases hdigits : Nat.toDigits 10 n.toNat with
    | nil => exact absurd hdigits Nat.toDigits_ne_nil
    | cons c more =>
      have hc : c.isDigit = true :=
        Text.isDigit_of_mem_toDigits (n := n.toNat) (by rw [hdigits]; exact List.mem_cons_self)
      refine ⟨c, more, rfl, eq_false_of_ne_true fun hblank => ?_⟩
      simp only [Json.isBlank, Bool.or_eq_true, decide_eq_true_eq] at hblank
      rcases hblank with ((rfl | rfl) | rfl) | rfl <;> exact absurd hc (by decide)
  | emitHeader b | traceRequests b =>
    obtain rfl : cs = (Json.boolText b).toList := h
    exact hbool b

/-- The value as it is saved. -/
def written : Setting → List Char
  | root s => Json.quoteChars s
  | bufferSize n => (Text.decimal n.toNat).toList
  | emitHeader b | traceRequests b => (Json.boolText b).toList

theorem isWritten_written (s : Setting) : s.IsWritten s.written := by
  cases s with
  | root s => exact Json.quotes_quoteChars s
  | bufferSize _ | emitHeader _ | traceRequests _ => rfl

end Setting

namespace Config

/-- The values of all settings. -/
def settings (c : Config) : List Setting :=
  [.root c.root, .bufferSize c.bufferSize, .emitHeader c.emitHeader, .traceRequests c.traceRequests]

theorem eq_of_settings {c d : Config} (h : ∀ s ∈ c.settings, s ∈ d.settings) : d = c := by
  have hsame : c.root = d.root ∧ c.bufferSize = d.bufferSize ∧ c.emitHeader = d.emitHeader ∧
      c.traceRequests = d.traceRequests := by simpa [settings] using h
  cases c
  cases d
  simp_all

namespace Given

/-- The settings that are given. -/
def settings (g : Given) : List Setting :=
  (g.root.map .root).toList ++ (g.bufferSize.map .bufferSize).toList ++
    (g.emitHeader.map .emitHeader).toList ++ (g.traceRequests.map .traceRequests).toList

def keys (g : Given) : List String :=
  g.settings.map Setting.key

def put (g : Given) : Setting → Given
  | .root s => { g with root := some s }
  | .bufferSize n => { g with bufferSize := some n }
  | .emitHeader b => { g with emitHeader := some b }
  | .traceRequests b => { g with traceRequests := some b }

theorem mem_settings_put {g : Given} {s t : Setting} :
    t ∈ (g.put s).settings ↔ t = s ∨ t ∈ g.settings ∧ t.key ≠ s.key := by
  cases s <;> cases t <;> simp [put, settings, Setting.key]

theorem mem_keys_put {g : Given} {s : Setting} {k : String} :
    k ∈ (g.put s).keys ↔ k = s.key ∨ k ∈ g.keys := by
  simp only [keys, List.mem_map, mem_settings_put]
  constructor
  · rintro ⟨t, rfl | ⟨ht, -⟩, rfl⟩
    · exact .inl rfl
    · exact .inr ⟨t, ht, rfl⟩
  · rintro (rfl | ⟨t, ht, rfl⟩)
    · exact ⟨s, .inl rfl, rfl⟩
    · by_cases hkey : t.key = s.key
      · exact ⟨s, .inl rfl, hkey.symm⟩
      · exact ⟨t, .inr ⟨ht, hkey⟩, rfl⟩

/-- Settings of different names are all kept. -/
theorem mem_settings_foldl {ss : List Setting} (hdistinct : (ss.map Setting.key).Nodup) {g : Given}
    {t : Setting} :
    t ∈ (ss.foldl put g).settings ↔ t ∈ ss ∨ t ∈ g.settings ∧ t.key ∉ ss.map Setting.key := by
  induction ss generalizing g with
  | nil => simp
  | cons s ss ih =>
    rw [List.map_cons, List.nodup_cons] at hdistinct
    rw [List.foldl_cons, ih hdistinct.2, mem_settings_put, List.mem_cons, List.map_cons, List.mem_cons]
    constructor
    · rintro (ht | ⟨rfl | ⟨ht, hkey⟩, hlater⟩)
      · exact .inl (.inr ht)
      · exact .inl (.inl rfl)
      · exact .inr ⟨ht, fun h => h.elim hkey hlater⟩
    · rintro ((rfl | ht) | ⟨ht, hother⟩)
      · exact .inr ⟨.inl rfl, hdistinct.1⟩
      · exact .inl ht
      · exact .inr ⟨.inr ⟨ht, fun h => hother (.inl h)⟩, fun h => hother (.inr h)⟩

-- A name is given when its value is.
theorem mem_keys {g : Given} {s : Setting} :
    s.key ∈ g.keys ↔
      match s with
      | .root _ => g.root ≠ none
      | .bufferSize _ => g.bufferSize ≠ none
      | .emitHeader _ => g.emitHeader ≠ none
      | .traceRequests _ => g.traceRequests ≠ none := by
  cases s <;>
    simp [keys, settings, Setting.key, Option.ne_none_iff_exists', -Bool.exists_bool]

/-- What is not given has its default. -/
theorem mem_settings_complete {g : Given} {s : Setting} :
    s ∈ g.complete.settings ↔ s ∈ g.settings ∨ s ∈ ({} : Config).settings ∧ s.key ∉ g.keys := by
  rw [mem_keys]
  -- Only the value with the name of `s` matters.
  cases s with
  | root _ => cases hg : g.root <;> simp [complete, Config.settings, settings, hg]
  | bufferSize _ => cases hg : g.bufferSize <;> simp [complete, Config.settings, settings, hg]
  | emitHeader _ => cases hg : g.emitHeader <;> simp [complete, Config.settings, settings, hg]
  | traceRequests _ => cases hg : g.traceRequests <;> simp [complete, Config.settings, settings, hg]

/-! ## Reading one setting -/

/-- A setting of a name that was not given yet is read and kept. -/
theorem readField_append {g : Given} {s : Setting} (hfresh : s.key ∉ g.keys) {value : List Char}
    (hvalue : s.IsWritten value) {rest : List Char} (hrest : Json.EndsNumber rest) :
    readField g s.key (value ++ rest) = some (g.put s, rest) := by
  rw [mem_keys] at hfresh
  unfold readField
  cases s with
  | root s =>
    have hread := Json.Quotes.readText_append hvalue rest
    simp_all [Setting.key, put]
  | bufferSize n =>
    obtain rfl : value = (Text.decimal n.toNat).toList := hvalue
    have hread : readSize ((Text.decimal n.toNat).toList ++ rest) = some (n, rest) := by
      have hlt : n.toNat < UInt64.size := n.toNat_lt
      rw [readSize, Json.readNat_decimal n.toNat hrest]
      simp [hlt]
    simp_all [Setting.key, put]
  | emitHeader b | traceRequests b =>
    obtain rfl : value = (Json.boolText b).toList := hvalue
    simp_all [Setting.key, Json.readBool_boolText, put]

end Given

/-! ## Fields -/

/-- A setting as it stands in a file, in some spelling and with blanks around its parts. -/
structure Field where
  setting : Setting
  key : List Char
  value : List Char
  beforeKey : Json.Blanks := {}
  behindKey : Json.Blanks := {}
  beforeValue : Json.Blanks := {}
  behindValue : Json.Blanks := {}
  key_quotes : Json.Quotes key setting.key
  value_written : setting.IsWritten value

namespace Field

def chars (f : Field) : List Char :=
  f.beforeKey.chars ++ (f.key ++ (f.behindKey.chars ++
    ':' :: (f.beforeValue.chars ++ (f.value ++ f.behindValue.chars))))

/-- What stands behind a field: the next one or the end. -/
def IsStop (c : Char) : Prop :=
  c = ',' ∨ c = '\x7d'

theorem endsNumber_append (b : Json.Blanks) {c : Char} (hc : IsStop c) (rest : List Char) :
    Json.EndsNumber (b.chars ++ c :: rest) := by
  intro d hd
  have hclass : Json.isBlank d = true ∨ IsStop d := by
    cases hchars : b.chars with
    | nil =>
      rw [hchars] at hd
      cases hd
      exact .inr hc
    | cons a more =>
      rw [hchars] at hd
      cases hd
      exact .inl (List.all_eq_true.mp b.blank d (by rw [hchars]; exact List.mem_cons_self))
  simp only [Json.isBlank, Bool.or_eq_true, decide_eq_true_eq] at hclass
  rcases hclass with (((rfl | rfl) | rfl) | rfl) | (rfl | rfl) <;> decide

theorem isBlank_of_isStop {c : Char} (hc : IsStop c) : Json.isBlank c = false := by
  rcases hc with rfl | rfl <;> rfl

/-- The name and the value are read, and what is left starts behind the value. -/
theorem read_append (f : Field) {g : Given} (hfresh : f.setting.key ∉ g.keys) {c : Char} (hc : IsStop c)
    (rest : List Char) :
    ∃ cs, Json.readKey (Json.skipBlanks (f.chars ++ c :: rest)) = some (f.setting.key, cs) ∧
      readField g f.setting.key cs = some (g.put f.setting, f.behindValue.chars ++ c :: rest) := by
  obtain ⟨spelled, -, hquoted⟩ := f.key_quotes
  obtain ⟨v, more, hvalue, hblank⟩ := f.value_written.exists_cons
  refine ⟨f.value ++ (f.behindValue.chars ++ c :: rest), ?_,
    Given.readField_append hfresh f.value_written (endsNumber_append _ hc rest)⟩
  have hstart : ∀ cs, Json.skipBlanks (f.key ++ cs) = f.key ++ cs := fun cs => by
    rw [hquoted]
    exact Json.skipBlanks_of_not rfl _
  have hkept : ∀ cs, Json.skipBlanks (f.value ++ cs) = f.value ++ cs := fun cs => by
    rw [hvalue]
    exact Json.skipBlanks_of_not hblank _
  have hcolon : ∀ cs, Json.skipBlanks (':' :: cs) = ':' :: cs := Json.skipBlanks_of_not rfl
  simp only [chars, List.append_assoc, List.cons_append, Json.skipBlanks_append, hstart]
  rw [Json.readKey, f.key_quotes.readText_append]
  simp only [Option.bind_eq_bind, Option.bind_some, Json.skipBlanks_append, hcolon, hkept]

end Field

/-! ## Files -/

open Given

/-- The last field is read up to the brace behind it. -/
theorem readFields_last (f : Field) {g : Given} (hfresh : f.setting.key ∉ g.keys) (bound : Nat)
    (rest : List Char) :
    readFields (bound + 1) g (Json.skipBlanks (f.chars ++ '\x7d' :: rest)) =
      some (g.put f.setting, rest) := by
  have hstop : Field.IsStop '\x7d' := .inr rfl
  obtain ⟨cs, hkey, hvalue⟩ := f.read_append hfresh hstop rest
  rw [readFields, hkey]
  simp only [Option.bind_eq_bind, Option.bind_some, hvalue, Json.skipBlanks_append,
    Json.skipBlanks_of_not (Field.isBlank_of_isStop hstop)]

theorem readFields_more (f : Field) {g : Given} (hfresh : f.setting.key ∉ g.keys) (bound : Nat)
    (rest : List Char) :
    readFields (bound + 1) g (Json.skipBlanks (f.chars ++ ',' :: rest)) =
      readFields bound (g.put f.setting) (Json.skipBlanks rest) := by
  have hstop : Field.IsStop ',' := .inl rfl
  obtain ⟨cs, hkey, hvalue⟩ := f.read_append hfresh hstop rest
  rw [readFields, hkey]
  simp only [Option.bind_eq_bind, Option.bind_some, hvalue, Json.skipBlanks_append,
    Json.skipBlanks_of_not (Field.isBlank_of_isStop hstop)]

/-- Fields of different names are all read, in any order. -/
theorem readFields_append (f : Field) (fs : List Field) {g : Given}
    (hdistinct : ((f :: fs).map (·.setting.key)).Nodup)
    (hfresh : ∀ k ∈ (f :: fs).map (·.setting.key), k ∉ g.keys) {bound : Nat} (hbound : fs.length < bound)
    (rest : List Char) :
    readFields bound g
        (Json.skipBlanks (Json.commaSeparated ((f :: fs).map Field.chars) ++ '\x7d' :: rest)) =
      some (((f :: fs).map Field.setting).foldl Given.put g, rest) := by
  induction fs generalizing f g bound with
  | nil =>
    obtain ⟨bound, rfl⟩ := Nat.exists_eq_succ_of_ne_zero (Nat.ne_of_gt hbound)
    exact readFields_last f (hfresh _ List.mem_cons_self) bound rest
  | cons f' fs ih =>
    obtain ⟨bound, rfl⟩ := Nat.exists_eq_succ_of_ne_zero (Nat.ne_zero_of_lt hbound)
    rw [List.map_cons, List.nodup_cons] at hdistinct
    have hlater : ∀ k ∈ (f' :: fs).map (·.setting.key), k ∉ (g.put f.setting).keys := by
      intro k hk hput
      rcases mem_keys_put.mp hput with rfl | hgiven
      · exact hdistinct.1 hk
      · exact hfresh k (List.mem_cons_of_mem _ hk) hgiven
    have hrest := ih f' hdistinct.2 hlater (Nat.lt_of_succ_lt_succ hbound)
    have hstep := readFields_more f (hfresh _ List.mem_cons_self) bound
      (Json.commaSeparated ((f' :: fs).map Field.chars) ++ '\x7d' :: rest)
    rw [hrest] at hstep
    refine Eq.trans ?_ hstep
    simp only [List.map_cons, Json.commaSeparated_cons_cons, List.append_assoc, List.cons_append]

-- A text is long enough for its fields.
theorem length_lt_length_skipBlanks (f : Field) (fs : List Field) (rest : List Char) :
    fs.length <
      (Json.skipBlanks (Json.commaSeparated ((f :: fs).map Field.chars) ++ '\x7d' :: rest)).length := by
  cases fs with
  | nil =>
    have hlong := Json.length_lt_skipBlanks (Field.isBlank_of_isStop (.inr rfl)) f.chars rest
    exact Nat.zero_lt_of_lt hlong
  | cons f' fs =>
    have hlong := Json.length_lt_skipBlanks (Field.isBlank_of_isStop (.inl rfl)) f.chars
      (Json.commaSeparated ((f' :: fs).map Field.chars) ++ '\x7d' :: rest)
    have hparts := Json.length_commaSeparated ((f' :: fs).map Field.chars)
    simp only [List.map_cons, Json.commaSeparated_cons_cons, List.append_assoc, List.cons_append,
      List.length_append, List.length_cons, List.length_map] at hlong hparts ⊢
    omega

-- The first field starts with the quote of its name.
theorem skipBlanks_fields (f : Field) (fs : List Field) (rest : List Char) :
    ∃ more, Json.skipBlanks (Json.commaSeparated ((f :: fs).map Field.chars) ++ '\x7d' :: rest) =
      '"' :: more := by
  obtain ⟨spelled, -, hquoted⟩ := f.key_quotes
  have hstart : ∀ cs, ∃ more, Json.skipBlanks (f.chars ++ cs) = '"' :: more := fun cs => by
    simp only [Field.chars, hquoted, List.append_assoc, List.cons_append, Json.skipBlanks_append,
      Json.skipBlanks_of_not (show Json.isBlank '"' = false from rfl)]
    exact ⟨_, rfl⟩
  cases fs with
  | nil => exact hstart _
  | cons f' fs =>
    rw [List.map_cons, List.map_cons, Json.commaSeparated_cons_cons, List.append_assoc]
    exact hstart _

/-- A file that is one JSON object with some of the settings, each at most once. -/
structure File where
  fields : List Field
  inFront : Json.Blanks := {}
  inside : Json.Blanks := {}
  atEnd : Json.Blanks := {}
  distinct : (fields.map (·.setting.key)).Nodup

namespace File

def settings (f : File) : List Setting :=
  f.fields.map Field.setting

def text (f : File) : String :=
  String.ofList (f.inFront.chars ++ '\x7b' :: (f.inside.chars ++
    (Json.commaSeparated (f.fields.map Field.chars) ++ '\x7d' :: f.atEnd.chars)))

/-- Reading a file gives the settings in it. -/
theorem ofText?_text (f : File) : ofText? f.text = some (f.settings.foldl Given.put {}).complete := by
  have hgiven : readGiven ('\x7b' :: (f.inside.chars ++
      (Json.commaSeparated (f.fields.map Field.chars) ++ '\x7d' :: f.atEnd.chars))) =
      some (f.settings.foldl Given.put {}, f.atEnd.chars) := by
    have hdistinct := f.distinct
    unfold settings
    cases hfields : f.fields with
    | nil =>
      simp only [readGiven, List.map_nil, Json.commaSeparated, List.nil_append, Json.skipBlanks_append,
        Json.skipBlanks_of_not (Field.isBlank_of_isStop (.inr rfl)), List.foldl_nil]
    | cons g gs =>
      rw [hfields] at hdistinct
      have hread := readFields_append g gs hdistinct (g := {}) (fun _ _ hk => nomatch hk)
        (length_lt_length_skipBlanks g gs f.atEnd.chars) f.atEnd.chars
      obtain ⟨more, hmore⟩ := skipBlanks_fields g gs f.atEnd.chars
      rw [hmore] at hread
      simp only [readGiven, Json.skipBlanks_append, hmore]
      exact hread
  have hbrace : Json.isBlank '\x7b' = false := rfl
  rw [ofText?, text, String.toList_ofList, Json.skipBlanks_append, Json.skipBlanks_of_not hbrace, hgiven]
  simp

/-- A setting on a line of its own. -/
def line (s : Setting) (behind : Json.Blanks) : Field where
  setting := s
  key := Json.quoteChars s.key
  value := s.written
  beforeKey := { chars := ['\n', ' ', ' '] }
  beforeValue := { chars := [' '] }
  behindValue := behind
  key_quotes := Json.quotes_quoteChars s.key
  value_written := s.isWritten_written

/-- What is saved: all settings in their order. -/
def saved (c : Config) : File where
  fields := [line (.root c.root) {}, line (.bufferSize c.bufferSize) {}, line (.emitHeader c.emitHeader) {},
    line (.traceRequests c.traceRequests) { chars := ['\n'] }]
  distinct := show ["root", "buffer_size", "emit_header", "trace_requests"].Nodup by decide

theorem text_saved (c : Config) : (saved c).text = c.save := by
  simp [text, saved, line, Field.chars, save, Config.chars, fieldLine, Json.commaSeparated, Setting.key,
    Setting.written]

theorem settings_saved (c : Config) : (saved c).settings = c.settings :=
  rfl

/-- Whatever the order, the spelling and the layout, the settings of a file are kept and the others have
their defaults. -/
theorem exists_load (f : File) :
    ∃ c, load (some (Text.utf8 f.text)) = .ok c ∧ (∀ s ∈ f.settings, s ∈ c.settings) ∧
      ∀ s ∈ ({} : Config).settings, s.key ∉ f.settings.map Setting.key → s ∈ c.settings := by
  have hdistinct : (f.settings.map Setting.key).Nodup := by
    rw [settings, List.map_map]
    exact f.distinct
  have hkept : ∀ s, s ∈ (f.settings.foldl Given.put {}).settings ↔ s ∈ f.settings := fun s => by
    rw [mem_settings_foldl hdistinct]
    exact or_iff_left fun h => nomatch h.1
  refine ⟨(f.settings.foldl Given.put {}).complete, ?_, fun s hs => ?_, fun s hs hmissing => ?_⟩
  · rw [load]
    simp only [Text.ofUtf8?_utf8, ofText?_text]
  · exact mem_settings_complete.mpr (.inl ((hkept s).mpr hs))
  · refine mem_settings_complete.mpr (.inr ⟨hs, fun hkey => hmissing ?_⟩)
    obtain ⟨t, ht, hname⟩ := List.mem_map.mp hkey
    exact List.mem_map.mpr ⟨t, (hkept t).mp ht, hname⟩

end File

/-- Saving loses nothing: what is saved is read as it was. And of every object with some of the settings, in
any order, these are read as they are given and the others have their defaults. -/
theorem config_kept_in_files :
    (∀ c : Config, load (some (Text.utf8 c.save)) = .ok c) ∧
      ∀ f : File, ∃ c, load (some (Text.utf8 f.text)) = .ok c ∧ (∀ s ∈ f.settings, s ∈ c.settings) ∧
        ∀ s ∈ ({} : Config).settings, s.key ∉ f.settings.map Setting.key → s ∈ c.settings := by
  refine ⟨fun c => ?_, File.exists_load⟩
  obtain ⟨d, hload, hkept, -⟩ := (File.saved c).exists_load
  rw [File.text_saved] at hload
  rw [File.settings_saved] at hkept
  rw [hload, eq_of_settings hkept]

/-- Two of the settings, the last one first, with the slashes of the root escaped. -/
def File.terse : File where
  fields := [
    { setting := .traceRequests true
      key := Json.quoteChars "trace_requests"
      value := "true".toList
      beforeKey := { chars := [' '] }
      key_quotes := Json.quotes_quoteChars "trace_requests"
      value_written := rfl },
    { setting := .root "ipp://a"
      key := Json.quoteChars "root"
      value := "\"ipp:\\/\\/a\"".toList
      behindKey := { chars := ['\t'] }
      key_quotes := Json.quotes_quoteChars "root"
      value_written :=
        ⟨"ipp:\\/\\/a".toList,
          .plain 'i' (by decide) (by decide) (by decide) (.plain 'p' (by decide) (by decide) (by decide)
            (.plain 'p' (by decide) (by decide) (by decide) (.plain ':' (by decide) (by decide) (by decide)
              (.letter rfl (.letter rfl (.plain 'a' (by decide) (by decide) (by decide) .nil)))))),
          rfl⟩ }]
  distinct := by decide

theorem terse_file_read :
    File.terse.text = "\x7b \"trace_requests\":true,\"root\"\t:\"ipp:\\/\\/a\"\x7d" ∧
      load (some (Text.utf8 File.terse.text)) = .ok { root := "ipp://a", traceRequests := true } := by
  refine ⟨by decide +kernel, ?_⟩
  obtain ⟨c, hload, hgiven, hdefault⟩ := config_kept_in_files.2 File.terse
  have hroot := hgiven (.root "ipp://a") (by decide)
  have htrace := hgiven (.traceRequests true) (by decide)
  have hsize := hdefault (.bufferSize 512) (by decide) (by decide)
  have hheader := hdefault (.emitHeader true) (by decide) (by decide)
  have hsettings : ∀ s ∈ ({ root := "ipp://a", traceRequests := true } : Config).settings,
      s ∈ c.settings := by
    intro s hs
    rw [settings] at hs
    simp only [List.mem_cons, List.not_mem_nil, or_false] at hs
    obtain rfl | rfl | rfl | rfl := hs
    exacts [hroot, hsize, hheader, htrace]
  rw [hload, eq_of_settings hsettings]

end Config
end Ipp
