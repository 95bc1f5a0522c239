import Ipp.Attribute
import Ipp.Proofs.Wire
import Ipp.Request.Header

/-!
# The form of a request

A request is written as a header, groups behind their delimiters, and the end tag; a group as attributes,
and an attribute as a named item with the items without a name behind it. Every form has its bytes and,
apart from them, the attributes that it stands for.
-/

namespace Ipp

/-! ## Values -/

/-- Whether bytes have the length that the values of the tag need. -/
structure ValueTag.Fits (t : ValueTag) (bs : List UInt8) : Prop where
  integer : t.family = .integer → bs.length = 4
  boolean : t.family = .boolean → bs.length = 1

instance (t : ValueTag) (bs : List UInt8) : Decidable (t.Fits bs) :=
  decidable_of_iff ((t.family = .integer → bs.length = 4) ∧ (t.family = .boolean → bs.length = 1))
    ⟨fun h => ⟨h.1, h.2⟩, fun h => ⟨h.integer, h.boolean⟩⟩

/-- The value that bytes of a fitting length stand for. -/
def Value.ofBytes (t : ValueTag) (bs : List UInt8) : Value :=
  match t.family with
  | .integer => .integer (Wire.toInt32 bs)
  | .boolean => .boolean (bs != [0])
  | .string => ((Text.ofUtf8? bs).map .string).getD (.bytes bs)
  | .other => .bytes bs

theorem Value.decode_of_fits {t : ValueTag} {bs : List UInt8} (h : t.Fits bs) (name : String) :
    Value.decode t name bs = .ok (.ofBytes t bs) := by
  unfold decode ofBytes
  cases hf : t.family with
  | integer => exact if_pos (h.integer hf)
  | boolean =>
    obtain ⟨b, rfl⟩ := List.length_eq_one_iff.mp (h.boolean hf)
    have hb : ([b] != [0]) = (b != 0) := by
      rw [Bool.eq_iff_iff, bne_iff_ne, bne_iff_ne, ne_eq, List.cons.injEq, and_iff_left rfl]
    simp only [hb]
  | string => cases Text.ofUtf8? bs <;> rfl
  | other => rfl

theorem Value.fits_of_decode {t : ValueTag} {bs : List UInt8} {name : String} {v : Value}
    (h : Value.decode t name bs = .ok v) : t.Fits bs := by
  unfold decode at h
  constructor
  · intro hf
    simp only [hf] at h
    split at h
    · assumption
    · cases h
  · intro hf
    simp only [hf] at h
    split at h
    · rfl
    · cases h

/-- A value of another tag than its attribute keeps its tag and bytes. -/
def Value.additional (own : ValueTag) (v : ValueTag × List UInt8) : Value :=
  if v.1 = own then .ofBytes own v.2 else .tagged v.1 v.2

/-! ## Items -/

/-- A value behind its tag and a name, which may be empty. -/
structure ItemForm where
  tag : ValueTag
  name : List UInt8
  value : List UInt8

def ItemForm.bytes (i : ItemForm) : List UInt8 :=
  i.tag.byte :: (Wire.counted i.name ++ Wire.counted i.value)

/-- The tag is no delimiter, and the lengths can be written. -/
structure ItemForm.WellFormed (i : ItemForm) : Prop where
  tag : lastDelimiter < i.tag.byte
  name : i.name.length ≤ Wire.longest
  value : i.value.length ≤ Wire.longest

instance (i : ItemForm) : Decidable i.WellFormed :=
  decidable_of_iff
    (lastDelimiter < i.tag.byte ∧ i.name.length ≤ Wire.longest ∧ i.value.length ≤ Wire.longest)
    ⟨fun h => ⟨h.1, h.2.1, h.2.2⟩, fun h => ⟨h.tag, h.name, h.value⟩⟩

theorem ItemForm.bytes_ne_nil (i : ItemForm) : i.bytes ≠ [] :=
  List.cons_ne_nil _ _

theorem ItemForm.WellFormed.append_bytes {i : ItemForm} (hi : i.WellFormed) (rest : List UInt8) :
    i.bytes ++ rest = i.tag.byte ::
      (Wire.ofUInt16 (UInt16.ofNat i.name.length) ++ (i.name ++ (Wire.counted i.value ++ rest))) := by
  rw [ItemForm.bytes, Wire.counted_eq hi.name, List.cons_append, List.append_assoc,
    List.append_assoc]

/-! ## Attributes -/

/-- A named item, and the tags and values of the items without a name behind it. -/
structure AttributeForm where
  tag : ValueTag
  name : List UInt8
  value : List UInt8
  more : List (ValueTag × List UInt8)

namespace AttributeForm

/-- An item without a name. -/
def nameless (v : ValueTag × List UInt8) : ItemForm :=
  { tag := v.1, name := [], value := v.2 }

def items (f : AttributeForm) : List ItemForm :=
  { tag := f.tag, name := f.name, value := f.value } :: f.more.map nameless

def bytes (f : AttributeForm) : List UInt8 :=
  f.items.flatMap ItemForm.bytes

structure WellFormed (f : AttributeForm) : Prop where
  items : ∀ i ∈ f.items, i.WellFormed
  named : f.name ≠ []
  value : f.tag.Fits f.value
  more : ∀ v ∈ f.more, v.1 = f.tag → f.tag.Fits v.2

instance (f : AttributeForm) : Decidable f.WellFormed :=
  decidable_of_iff
    ((∀ i ∈ f.items, i.WellFormed) ∧ f.name ≠ [] ∧ f.tag.Fits f.value ∧
      ∀ v ∈ f.more, v.1 = f.tag → f.tag.Fits v.2)
    ⟨fun h => ⟨h.1, h.2.1, h.2.2.1, h.2.2.2⟩, fun h => ⟨h.items, h.named, h.value, h.more⟩⟩

/-- The attribute that is written, in a group. -/
def toAttribute (f : AttributeForm) (group : Group) (block : Nat) : Attribute :=
  { name := Text.ofUtf8Lossy f.name
    group
    tag := f.tag
    values := .ofBytes f.tag f.value :: f.more.map (.additional f.tag)
    block }

end AttributeForm

/-- The attribute with the values of more items behind its own. -/
def Attribute.extended (a : Attribute) (more : List (ValueTag × List UInt8)) : Attribute :=
  { a with values := a.values ++ more.map (.additional a.tag) }

@[simp] theorem Attribute.extended_nil (a : Attribute) : a.extended [] = a := by
  rw [extended, List.map_nil, List.append_nil]

/-! ## Groups -/

structure GroupForm where
  group : Group
  attributes : List AttributeForm

namespace GroupForm

def bytes (g : GroupForm) : List UInt8 :=
  g.group.delimiter :: g.attributes.flatMap AttributeForm.bytes

def WellFormed (g : GroupForm) : Prop :=
  ∀ a ∈ g.attributes, a.WellFormed

instance (g : GroupForm) : Decidable g.WellFormed :=
  inferInstanceAs (Decidable (∀ a ∈ g.attributes, a.WellFormed))

end GroupForm

/-! ## Requests -/

/-- The bytes of a header. -/
def Header.bytes (h : Header) : List UInt8 :=
  h.major :: h.minor :: (Wire.ofUInt16 h.operation ++ Wire.ofUInt32 h.requestId)

theorem Header.length_bytes (h : Header) : h.bytes.length = Header.length := by
  rw [bytes, List.length_cons, List.length_cons, List.length_append, Wire.length_ofUInt16,
    Wire.length_ofUInt32, Header.length]

-- Any eight bytes are those of a header.
theorem Header.exists_of_length {bs : List UInt8} (hbs : Header.length ≤ bs.length) :
    ∃ (h : Header) (rest : List UInt8), bs = h.bytes ++ rest := by
  match bs, hbs with
  | major :: minor :: a :: b :: i :: j :: k :: l :: rest, _ =>
    refine ⟨⟨major, minor, Wire.toUInt16 [a, b], Wire.toUInt32 [i, j, k, l]⟩, rest, ?_⟩
    rw [bytes, Wire.ofUInt16_toUInt16 rfl, Wire.ofUInt32_toUInt32 rfl]
    rfl

/-- The form of an attribute, with the group and the ordinal of the delimiter that it stands behind. -/
structure PlacedForm where
  group : Group
  block : Nat
  form : AttributeForm

def PlacedForm.toAttribute (p : PlacedForm) : Attribute :=
  p.form.toAttribute p.group p.block

structure RequestForm where
  header : Header
  groups : List GroupForm

namespace RequestForm

def bytes (f : RequestForm) : List UInt8 :=
  f.header.bytes ++ (f.groups.flatMap GroupForm.bytes ++ [endOfAttributes])

-- A request has at least the end tag behind its header.
theorem header_lt_length (f : RequestForm) : Header.length < f.bytes.length := by
  rw [bytes, List.length_append, f.header.length_bytes, List.length_append, List.length_singleton]
  omega

def WellFormed (f : RequestForm) : Prop :=
  ∀ g ∈ f.groups, g.WellFormed

instance (f : RequestForm) : Decidable f.WellFormed :=
  inferInstanceAs (Decidable (∀ g ∈ f.groups, g.WellFormed))

/-- The attributes of all groups in order, each with the group and the ordinal of the delimiter that it
stands behind. -/
def attributes (f : RequestForm) : List Attribute :=
  (f.groups.zipIdx 1).flatMap fun (g, block) => g.attributes.map (·.toAttribute g.group block)

/-- The forms of the attributes in order, each in its place. -/
def placed (f : RequestForm) : List PlacedForm :=
  (f.groups.zipIdx 1).flatMap fun (g, block) => g.attributes.map fun form =>
    { group := g.group, block, form }

theorem attributes_eq_placed (f : RequestForm) : f.attributes = f.placed.map PlacedForm.toAttribute := by
  simp only [attributes, placed, List.map_flatMap, List.map_map]
  rfl

theorem WellFormed.placed {f : RequestForm} (hf : f.WellFormed) {p : PlacedForm}
    (hp : p ∈ f.placed) : p.form.WellFormed := by
  obtain ⟨⟨g, block⟩, hg, hp⟩ := List.mem_flatMap.mp hp
  obtain ⟨form, hform, rfl⟩ := List.mem_map.mp hp
  exact hf g (List.fst_mem_of_mem_zipIdx hg) form hform

end RequestForm
end Ipp
