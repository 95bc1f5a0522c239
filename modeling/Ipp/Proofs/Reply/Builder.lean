import Ipp.Proofs.Reply.Form
import Ipp.Reply.Builder

/-!
# What the builders queue

A builder that succeeds queues one attribute of its group, and that attribute can be read back if it has
a name.
-/

namespace Ipp

/-! ## Texts of the library -/

/-- An operation attribute with one text. -/
def Attribute.ofText (tag : ValueTag) (name text : String) : Attribute :=
  { name, group := .operation, tag, values := [.string text] }

theorem Queue.addStandard_eq (q : Queue) :
    q.addStandard = .ok ((q.insert (.ofText .charset "attributes-charset" "utf-8")).insert
      (.ofText .naturalLanguage "attributes-natural-language" "en")) :=
  rfl

/-! ## Sendable queues -/

theorem EntriesOf.append {g : Group} {entries more : List Entry} (h : EntriesOf g entries)
    (hmore : EntriesOf g more) : EntriesOf g (entries ++ more) := by
  intro a ha
  rcases List.mem_append.mp ha with ha | ha
  · exact h a ha
  · exact hmore a ha

namespace Queue

theorem sendable_empty : ({} : Queue).Sendable := by
  intro g a ha
  cases g <;> cases ha

theorem Sendable.append {q : Queue} (hq : q.Sendable) {g : Group} {entry : Entry}
    (h : EntriesOf g [entry]) : (q.append g entry).Sendable := by
  intro g'
  rw [list_append]
  apply (hq g').append
  by_cases hg : g = g'
  · rw [if_pos hg, ← hg]
    exact h
  · rw [if_neg hg]
    exact fun a ha => nomatch ha

theorem Sendable.insert {q : Queue} (hq : q.Sendable) {a : Attribute} (ha : a.Sendable) :
    (q.insert a).Sendable := by
  apply hq.append
  intro b hb
  cases List.mem_singleton.mp hb
  exact ⟨ha, rfl⟩

theorem Sendable.insertEnd {q q' : Queue} (hq : q.Sendable) {g : Group}
    (h : q.insertEnd g = .ok q') : q'.Sendable := by
  have hend : EntriesOf g [.endOfObject] := by
    intro a ha
    cases List.mem_singleton.mp ha
  cases g <;> cases h <;> exact hq.append hend

/-! ## Builders -/

/-- What succeeds queues an attribute of the group `g` that can be read back. -/
def Builds (g : Group) (change : Queue → Except Fault Queue) : Prop :=
  ∀ {q q'}, change q = .ok q' → ∃ a : Attribute, a.group = g ∧ a.Sendable ∧ q' = q.insert a

-- The tags that have an encoding of their own are above those in place of a value.
theorem tag_of_family {tag : ValueTag} (h : tag.family ≠ .other) : 0x1F < tag.byte := by
  unfold ValueTag.family at h
  split at h
  · next hm =>
    have hall : ∀ t ∈ [ValueTag.integer, .enumeration], 0x1F < t.byte := by decide
    exact hall tag hm
  split at h
  · next hm =>
    have hall : ∀ t ∈ [ValueTag.octetString, .text, .name, .keyword, .uri, .uriScheme, .charset,
      .naturalLanguage, .mimeMediaType], 0x1F < t.byte := by decide
    exact hall tag hm
  split at h
  · next hb =>
    rw [hb]
    decide
  · exact absurd rfl h

theorem lastDelimiter_lt_of_family {tag : ValueTag} (h : tag.family ≠ .other) :
    lastDelimiter < tag.byte :=
  UInt8.lt_trans (by decide) (tag_of_family h)

variable {g : Group} {tag : ValueTag} {name : String}

-- A family and values of it make an attribute that can be read back.
theorem builds_add {builder : String} {want : Family} {values : List Value} (hname : name ≠ "")
    (hwant : want ≠ .other) (hvalues : tag.family = want → ∀ v ∈ values, v.IsOf tag) :
    Builds g (add builder want g tag name values) := by
  intro q q' h
  rw [add] at h
  by_cases hf : tag.family = want
  · rw [if_neg (not_not_intro hf)] at h
    split at h
    · cases h
    · cases h
      have htag : lastDelimiter < tag.byte := lastDelimiter_lt_of_family (by rw [hf]; exact hwant)
      refine ⟨{ name, group := g, tag, values }, rfl,
        ⟨hname, htag, nofun, fun _ v hv => ?_, fun _ v hv => ?_⟩, rfl⟩
      · exact hvalues hf v (List.mem_of_mem_head? hv)
      · exact (hvalues hf v hv).isAdditional htag
  · rw [if_pos hf] at h
    cases h

theorem isOf_integer (h : tag.family = .integer) (n : Int32) : (Value.integer n).IsOf tag := by
  refine ⟨Wire.ofInt32 n, ⟨fun _ => Wire.length_ofInt32 n, fun hb => ?_⟩, ?_⟩
  · rw [h] at hb
    cases hb
  · rw [Value.ofBytes, h]
    exact (congrArg _ (Wire.toInt32_ofInt32 n)).symm

theorem isOf_string (h : tag.family = .string) (s : String) : (Value.string s).IsOf tag :=
  ⟨Text.utf8 s, ValueTag.fits_of_string h _, (Value.ofBytes_utf8 h s).symm⟩

theorem isOf_boolean (h : tag.family = .boolean) (b : Bool) : (Value.boolean b).IsOf tag := by
  refine ⟨[if b then 1 else 0], ⟨fun hi => ?_, fun _ => rfl⟩, ?_⟩
  · rw [h] at hi
    cases hi
  · rw [Value.ofBytes, h]
    cases b <;> rfl

theorem builds_addIntegers (hname : name ≠ "") (ns : List Int32) :
    Builds g (addIntegers g tag name ns) := by
  apply builds_add hname (by decide)
  intro hf v hv
  obtain ⟨n, -, rfl⟩ := List.mem_map.mp hv
  exact isOf_integer hf n

theorem builds_addInteger (hname : name ≠ "") (n : Int32) : Builds g (addInteger g tag name n) := by
  apply builds_add hname (by decide)
  intro hf v hv
  cases List.mem_singleton.mp hv
  exact isOf_integer hf n

theorem builds_addStrings (hname : name ≠ "") (ss : List String) :
    Builds g (addStrings g tag name ss) := by
  apply builds_add hname (by decide)
  intro hf v hv
  obtain ⟨s, -, rfl⟩ := List.mem_map.mp hv
  exact isOf_string hf s

theorem builds_addString (hname : name ≠ "") (s : String) : Builds g (addString g tag name s) := by
  apply builds_add hname (by decide)
  intro hf v hv
  cases List.mem_singleton.mp hv
  exact isOf_string hf s

theorem builds_addBoolean (hname : name ≠ "") (b : Bool) : Builds g (addBoolean g tag name b) := by
  apply builds_add hname (by decide)
  intro hf v hv
  cases List.mem_singleton.mp hv
  exact isOf_boolean hf b

theorem builds_addOutOfBand (hname : name ≠ "") : Builds g (addOutOfBand g tag name) := by
  intro q q' h
  rw [addOutOfBand] at h
  by_cases hb : tag.isOutOfBand = true
  · rw [if_pos hb] at h
    cases h
    -- a tag in place of a value is above all delimiters, and below every tag with an encoding
    obtain ⟨hlow, hhigh⟩ : 0x10 ≤ tag.byte ∧ tag.byte ≤ 0x1F := by
      simpa [ValueTag.isOutOfBand] using hb
    have htag : lastDelimiter < tag.byte := UInt8.lt_of_lt_of_le (by decide) hlow
    have hother : tag.family = .other := by
      by_cases hf : tag.family = .other
      · exact hf
      · exact absurd (tag_of_family hf) (UInt8.not_lt.mpr hhigh)
    have hof : (Value.bytes []).IsOf tag := by
      refine ⟨[], ⟨fun hf => ?_, fun hf => ?_⟩, by rw [Value.ofBytes, hother]⟩
      · rw [hother] at hf
        cases hf
      · rw [hother] at hf
        cases hf
    refine ⟨{ name, group := g, tag, values := [.bytes []] }, rfl,
      ⟨hname, htag, fun ht => ?_, fun _ v hv => ?_, fun _ v hv => ?_⟩, rfl⟩
    · cases ht
    · cases hv
      exact hof
    · cases List.mem_singleton.mp hv
      exact hof.isAdditional htag
  · rw [if_neg hb] at h
    cases h

theorem builds_addTemplates (hname : name ≠ "") (pattern : String) (args : List Value) :
    Builds g (addTemplates g tag name pattern args) := by
  intro q q' h
  rw [addTemplates] at h
  by_cases hf : tag.family = .string
  · rw [if_neg (not_not_intro hf)] at h
    split at h
    · cases h
    split at h
    · cases h
    · cases h
      have htag : lastDelimiter < tag.byte := lastDelimiter_lt_of_family (by rw [hf]; decide)
      exact ⟨{ name, group := g, tag, values := args, template := some pattern }, rfl,
        ⟨hname, htag, fun _ => hf, nofun, nofun⟩, rfl⟩
  · rw [if_pos hf] at h
    cases h

theorem builds_addTemplate (hname : name ≠ "") (pattern : String) (arg : Value) :
    Builds g (addTemplate g tag name pattern arg) :=
  builds_addTemplates hname pattern [arg]

theorem builds_addCopy {a : Attribute} (ha : a.Sendable) : Builds g (addCopy g a) := by
  intro q q' h
  rw [addCopy] at h
  by_cases hempty : a.values.isEmpty = true
  · rw [if_pos hempty] at h
    cases h
  · rw [if_neg hempty] at h
    cases h
    exact ⟨{ a with group := g, block := 0 }, rfl,
      ⟨ha.name, ha.tag, ha.template, ha.first, ha.values⟩, rfl⟩

-- The two standard attributes.
theorem addStandard_ok {q q' : Queue} (h : addStandard q = .ok q') :
    ∃ a b : Attribute, (a.group = .operation ∧ a.Sendable) ∧ (b.group = .operation ∧ b.Sendable) ∧
      q' = (q.insert a).insert b := by
  rw [addStandard] at h
  cases hc : addString .operation .charset "attributes-charset" "utf-8" q with
  | error fault =>
    rw [hc] at h
    cases h
  | ok q₁ =>
    rw [hc] at h
    replace h : addString .operation .naturalLanguage "attributes-natural-language" "en" q₁ = .ok q' :=
      h
    obtain ⟨a, hag, ha, rfl⟩ := builds_addString (by decide) "utf-8" hc
    obtain ⟨b, hbg, hb, rfl⟩ := builds_addString (by decide) "en" h
    exact ⟨a, b, ⟨hag, ha⟩, ⟨hbg, hb⟩, rfl⟩

end Queue
end Ipp
