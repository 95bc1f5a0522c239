import Ipp.Proofs.Channel.Reading
import Ipp.Proofs.Request.Form
import Ipp.Request.Reader

/-!
# Reading forms

The reader takes the bytes of a form off the front of what is upcoming and holds its attributes
(`consumes_attribute`, `consumes_groups`).
-/

namespace Ipp.Reader

open Calls

/-! ## Calls on the channel -/

theorem onChannel_of_ok {α : Type} {call : Channel.Action α} {r : Reader} {a : α} {c : Channel}
    (h : call r.channel = .ok a c) : onChannel call r = .ok a { r with channel := c } := by
  rw [onChannel, h]

theorem onChannel_eq_ok {α : Type} {call : Channel.Action α} {r s : Reader} {a : α} :
    onChannel call r = .ok a s ↔ ∃ c, call r.channel = .ok a c ∧ s = { r with channel := c } := by
  constructor
  · intro h
    rw [onChannel] at h
    split at h
    · next a' c hc =>
      cases h
      exact ⟨c, hc, rfl⟩
    · cases h
  · rintro ⟨c, hc, rfl⟩
    exact onChannel_of_ok hc

/-- The reader without its channel and its notes. -/
def place (r : Reader) : Option Group × Nat × Option Attribute × List Attribute :=
  (r.group, r.block, r.current, r.closed)

/-! ## One part -/

theorem getCounted_of_counted {r : Reader} (hs : r.channel.Steady) {bytes rest : List UInt8}
    (hl : bytes.length ≤ Wire.longest) (hu : r.channel.upcoming = Wire.counted bytes ++ rest) :
    ∃ c, getCounted r = .ok bytes { r with channel := c } ∧ r.channel.Reads c ∧ c.upcoming = rest := by
  rw [Wire.counted_eq hl, List.append_assoc] at hu
  obtain ⟨c, hc, hreads, hu'⟩ := hs.getUInt16_append hu
  obtain ⟨d, hd, hreads', hu''⟩ := (hreads.steady hs).getBytes_append hu'
  refine ⟨d, ?_, hreads.trans hreads', hu''⟩
  rw [getCounted, bind_of_ok (onChannel_of_ok hc), Wire.toNat_ofNat_length hl]
  exact onChannel_of_ok hd

theorem getCounted_ok {r s : Reader} {bytes : List UInt8} (h : getCounted r = .ok bytes s) :
    ∃ c, s = { r with channel := c } ∧ r.channel.Reads c ∧ bytes.length ≤ Wire.longest ∧
      r.channel.upcoming = Wire.counted bytes ++ c.upcoming := by
  obtain ⟨n, t, hn, ht⟩ := bind_eq_ok.mp h
  obtain ⟨c, hc, rfl⟩ := onChannel_eq_ok.mp hn
  obtain ⟨d, hd, rfl⟩ := onChannel_eq_ok.mp ht
  obtain ⟨hreads, hu⟩ := Channel.getUInt16_ok hc
  obtain ⟨hreads', hlen, hu'⟩ := Channel.getBytes_ok hd
  have hl : bytes.length ≤ Wire.longest := by
    have := n.toNat_lt
    rw [hlen, Wire.longest]
    omega
  refine ⟨d, rfl, hreads.trans hreads', hl, ?_⟩
  rw [Wire.counted_eq hl, hlen, UInt16.ofNat_toNat, List.append_assoc, ← hu', hu]

/-- What is read behind a tag. -/
def behindTag (tag : UInt8) : Action Bool :=
  if tag = endOfAttributes then pure false
  else if tag ≤ lastDelimiter then
    match Group.ofDelimiter? tag with
    | none => throw (.invalidTag tag)
    | some group => do
      modify (·.enter group)
      pure true
  else do
    let length ← onChannel Channel.getUInt16
    if length = 0 then readAdditional ⟨tag⟩ else readNamed ⟨tag⟩ length
    pure true

theorem readPart_eq : readPart = onChannel Channel.getByte >>= behindTag :=
  rfl

theorem behindTag_end (r : Reader) : behindTag endOfAttributes r = .ok false r :=
  rfl

theorem behindTag_delimiter (g : Group) (r : Reader) :
    behindTag g.delimiter r = .ok true (r.enter g) := by
  cases g <;> rfl

theorem behindTag_item {tag : UInt8} (h : lastDelimiter < tag) :
    behindTag tag = (do
      let length ← onChannel Channel.getUInt16
      if length = 0 then readAdditional ⟨tag⟩ else readNamed ⟨tag⟩ length
      pure true) := by
  have hend : tag ≠ endOfAttributes := by
    rintro rfl
    exact absurd h (by decide)
  rw [behindTag, if_neg hend, if_neg (UInt8.not_le.mpr h)]

theorem readNamed_of_bytes {r : Reader} (hs : r.channel.Steady) {tag : ValueTag}
    {name value rest : List UInt8} {g : Group} (hg : r.group = some g)
    (hname : name.length ≤ Wire.longest) (hvalue : value.length ≤ Wire.longest)
    (hfit : tag.Fits value) (hu : r.channel.upcoming = name ++ (Wire.counted value ++ rest)) :
    ∃ s, readNamed tag (UInt16.ofNat name.length) r = .ok () s ∧ r.channel.Reads s.channel ∧
      s.channel.upcoming = rest ∧
      s.place = (some g, r.block,
        some { name := Text.ofUtf8Lossy name, group := g, tag, values := [.ofBytes tag value],
               block := r.block },
        r.current.toList ++ r.closed) := by
  obtain ⟨c, hc, hreads, hu'⟩ := hs.getBytes_append hu
  rw [← Wire.toNat_ofNat_length hname] at hc
  have hs' : ({ r with channel := c } : Reader).channel.Steady := hreads.steady hs
  obtain ⟨d, hd, hreads', hu''⟩ := getCounted_of_counted hs' hvalue hu'
  refine ⟨({ r with channel := d } : Reader).start g tag (Text.ofUtf8Lossy name)
    (.ofBytes tag value), ?_, hreads.trans hreads', hu'', by rw [place, start, ← hg]⟩
  rw [readNamed, bind_of_ok (onChannel_of_ok hc), bind_of_ok hd, get_bind]
  simp only [hg, Value.decode_of_fits hfit]
  rfl

theorem readAdditional_of_bytes {r : Reader} (hs : r.channel.Steady) {tag : ValueTag}
    {value rest : List UInt8} {a : Attribute} (ha : r.current = some a)
    (hvalue : value.length ≤ Wire.longest) (hfit : tag = a.tag → a.tag.Fits value)
    (hu : r.channel.upcoming = Wire.counted value ++ rest) :
    ∃ s, readAdditional tag r = .ok () s ∧ r.channel.Reads s.channel ∧ s.channel.upcoming = rest ∧
      s.place = (r.group, r.block,
        some { a with values := a.values ++ [.additional a.tag (tag, value)] }, r.closed) := by
  obtain ⟨c, hc, hreads, hu'⟩ := getCounted_of_counted hs hvalue hu
  by_cases ht : tag = a.tag
  · refine ⟨({ r with channel := c } : Reader).extend a (.ofBytes a.tag value), ?_, hreads, hu', ?_⟩
    · rw [readAdditional, get_bind]
      simp only [ha]
      rw [bind_of_ok hc, if_pos ht, ht, Value.decode_of_fits (hfit ht)]
      rfl
    · simp only [place, extend, Value.additional, ht, if_true]
  · have hv : Value.additional a.tag (tag, value) = .tagged tag value := by
      simp only [Value.additional, if_neg ht]
    rw [hv, readAdditional, get_bind]
    simp only [ha]
    rw [bind_of_ok hc, if_neg ht]
    by_cases hf : tag.family = a.tag.family
    · refine ⟨({ r with channel := c } : Reader).extend a (.tagged tag value), ?_, hreads, hu', rfl⟩
      rw [if_neg (not_not_intro hf)]
      rfl
    · refine ⟨({ r with channel := c, notes := differentEncoding a tag :: r.notes } : Reader).extend a
        (.tagged tag value), ?_, hreads, hu', rfl⟩
      rw [if_pos hf]
      rfl

/-! ## Taking up bytes -/

/-- The reader `r` takes `bytes` off the front of what is upcoming, in at most as many parts, and goes
on as `s`. -/
structure Consumes (r : Reader) (bytes : List UInt8) (s : Reader) : Prop where
  run : ∃ parts, parts ≤ bytes.length ∧ ∀ bound, readWithin (bound + parts) r = readWithin bound s
  reads : r.channel.Reads s.channel
  upcoming : r.channel.upcoming = bytes ++ s.channel.upcoming

theorem Consumes.refl (r : Reader) : r.Consumes [] r where
  run := ⟨0, Nat.le_refl 0, fun _ => rfl⟩
  reads := .refl r.channel
  upcoming := rfl

theorem Consumes.trans {r s t : Reader} {bytes bytes' : List UInt8} (h : r.Consumes bytes s)
    (h' : s.Consumes bytes' t) : r.Consumes (bytes ++ bytes') t where
  run := by
    rcases h.run with ⟨n, hn, hrun⟩
    rcases h'.run with ⟨m, hm, hrun'⟩
    refine ⟨m + n, ?_, fun bound => ?_⟩
    · rw [List.length_append]
      omega
    · rw [← Nat.add_assoc, hrun, hrun']
  reads := h.reads.trans h'.reads
  upcoming := by rw [h.upcoming, h'.upcoming, List.append_assoc]

theorem Consumes.steady {r s : Reader} {bytes : List UInt8} (h : r.Consumes bytes s)
    (hs : r.channel.Steady) : s.channel.Steady :=
  h.reads.steady hs

theorem consumes_of_readPart {r s : Reader} {bytes : List UInt8} (h : readPart r = .ok true s)
    (hreads : r.channel.Reads s.channel) (hu : r.channel.upcoming = bytes ++ s.channel.upcoming)
    (hb : bytes ≠ []) : r.Consumes bytes s where
  run := by
    refine ⟨1, List.length_pos_iff.mpr hb, fun bound => ?_⟩
    rw [readWithin, bind_of_ok h, if_pos rfl]
  reads := hreads
  upcoming := hu

theorem consumes_delimiter {r : Reader} (hs : r.channel.Steady) {g : Group} {rest : List UInt8}
    (hu : r.channel.upcoming = g.delimiter :: rest) :
    ∃ s, r.Consumes [g.delimiter] s ∧ s.channel.upcoming = rest ∧
      s.place = (some g, r.block + 1, none, r.current.toList ++ r.closed) := by
  obtain ⟨c, hc, hreads, hu'⟩ := hs.getByte_cons hu
  refine ⟨({ r with channel := c } : Reader).enter g, ?_, hu', rfl⟩
  apply consumes_of_readPart ?_ hreads ?_ (List.cons_ne_nil _ _)
  · rw [readPart_eq, bind_of_ok (onChannel_of_ok hc), behindTag_delimiter]
  · show r.channel.upcoming = [g.delimiter] ++ c.upcoming
    rw [hu, hu', List.singleton_append]

-- The part of an item behind its tag.
theorem behindTag_of_item {i : ItemForm} (hi : i.WellFormed) {r s : Reader} {c : Channel}
    (hc : Channel.getUInt16 r.channel = .ok (UInt16.ofNat i.name.length) c)
    (hrest : (if i.name = [] then readAdditional i.tag else
      readNamed i.tag (UInt16.ofNat i.name.length)) { r with channel := c } = .ok () s) :
    behindTag i.tag.byte r = .ok true s := by
  have hzero : UInt16.ofNat i.name.length = 0 ↔ i.name = [] := by
    rw [← UInt16.toNat_inj, Wire.toNat_ofNat_length hi.name, ← List.length_eq_zero_iff]
    rfl
  rw [behindTag_item hi.tag, bind_of_ok (onChannel_of_ok hc)]
  simp only [hzero]
  by_cases hn : i.name = []
  · rw [if_pos hn] at hrest ⊢
    exact bind_of_ok hrest _
  · rw [if_neg hn] at hrest ⊢
    exact bind_of_ok hrest _

-- An item is taken up when the call for what stands behind its name's length takes that up.
theorem consumes_item {r : Reader} (hs : r.channel.Steady) {i : ItemForm} (hi : i.WellFormed)
    {rest : List UInt8} (hu : r.channel.upcoming = i.bytes ++ rest) {P : Reader → Prop}
    (hrest : ∀ c : Channel, c.Steady → c.upcoming = i.name ++ (Wire.counted i.value ++ rest) →
      ∃ s, (if i.name = [] then readAdditional i.tag else
          readNamed i.tag (UInt16.ofNat i.name.length)) { r with channel := c } = .ok () s ∧
        c.Reads s.channel ∧ s.channel.upcoming = rest ∧ P s) :
    ∃ s, r.Consumes i.bytes s ∧ s.channel.upcoming = rest ∧ P s := by
  have hu₀ := hu
  rw [hi.append_bytes] at hu
  obtain ⟨c, hc, hreads, hu'⟩ := hs.getByte_cons hu
  obtain ⟨d, hd, hreads', hu''⟩ := (hreads.steady hs).getUInt16_append hu'
  have hread := hreads.trans hreads'
  obtain ⟨s, hcall, hreads'', hu''', hP⟩ := hrest d (hread.steady hs) hu''
  refine ⟨s, ?_, hu''', hP⟩
  apply consumes_of_readPart ?_ (hread.trans hreads'') ?_ i.bytes_ne_nil
  · rw [readPart_eq, bind_of_ok (onChannel_of_ok hc)]
    exact behindTag_of_item hi hd hcall
  · rw [hu₀, hu''']

theorem consumes_named {r : Reader} (hs : r.channel.Steady) {i : ItemForm} (hi : i.WellFormed)
    (hn : i.name ≠ []) (hfit : i.tag.Fits i.value) {g : Group} (hg : r.group = some g)
    {rest : List UInt8} (hu : r.channel.upcoming = i.bytes ++ rest) :
    ∃ s, r.Consumes i.bytes s ∧ s.channel.upcoming = rest ∧
      s.place = (some g, r.block,
        some { name := Text.ofUtf8Lossy i.name, group := g, tag := i.tag,
               values := [.ofBytes i.tag i.value], block := r.block },
        r.current.toList ++ r.closed) := by
  apply consumes_item hs hi hu
  intro c hc hu'
  rw [if_neg hn]
  have hread : ({ r with channel := c } : Reader).channel.Steady := hc
  exact readNamed_of_bytes hread hg hi.name hi.value hfit hu'

theorem consumes_nameless {r : Reader} (hs : r.channel.Steady) {v : ValueTag × List UInt8}
    (hi : (AttributeForm.nameless v).WellFormed) {a : Attribute} (ha : r.current = some a)
    (hfit : v.1 = a.tag → a.tag.Fits v.2) {rest : List UInt8}
    (hu : r.channel.upcoming = (AttributeForm.nameless v).bytes ++ rest) :
    ∃ s, r.Consumes (AttributeForm.nameless v).bytes s ∧ s.channel.upcoming = rest ∧
      s.place = (r.group, r.block,
        some { a with values := a.values ++ [.additional a.tag v] }, r.closed) := by
  have hname : (AttributeForm.nameless v).name = [] := rfl
  apply consumes_item hs hi hu
  intro c hc hu'
  rw [if_pos hname]
  have hread : ({ r with channel := c } : Reader).channel.Steady := hc
  exact readAdditional_of_bytes hread ha hi.value hfit hu'

/-! ## Attributes and groups -/

theorem consumes_more {r : Reader} (hs : r.channel.Steady) {a : Attribute} (ha : r.current = some a)
    {more : List (ValueTag × List UInt8)}
    (hitems : ∀ v ∈ more, (AttributeForm.nameless v).WellFormed)
    (hfit : ∀ v ∈ more, v.1 = a.tag → a.tag.Fits v.2) {rest : List UInt8}
    (hu : r.channel.upcoming = (more.map AttributeForm.nameless).flatMap ItemForm.bytes ++ rest) :
    ∃ s, r.Consumes ((more.map AttributeForm.nameless).flatMap ItemForm.bytes) s ∧
      s.channel.upcoming = rest ∧
      s.place = (r.group, r.block,
        some { a with values := a.values ++ more.map (.additional a.tag) }, r.closed) := by
  -- The attribute grows with every value, so it is general in the induction.
  induction more generalizing r a with
  | nil =>
    refine ⟨r, Consumes.refl r, hu, ?_⟩
    rw [List.map_nil, List.append_nil, ← ha]
    rfl
  | cons v more ih =>
    rw [List.map_cons, List.flatMap_cons, List.append_assoc] at hu
    obtain ⟨s, hc, hu', hplace⟩ := consumes_nameless hs (hitems v List.mem_cons_self) ha
      (hfit v List.mem_cons_self) hu
    obtain ⟨hg, hb, hcur, hcl⟩ : s.group = r.group ∧ s.block = r.block ∧
        s.current = some { a with values := a.values ++ [.additional a.tag v] } ∧
        s.closed = r.closed := by
      simpa only [place, Prod.mk.injEq] using hplace
    obtain ⟨t, hc', hu'', hplace'⟩ := ih (hc.steady hs) hcur
      (fun w hw => hitems w (List.mem_cons_of_mem _ hw))
      (fun w hw => hfit w (List.mem_cons_of_mem _ hw)) hu'
    refine ⟨t, hc.trans hc', hu'', ?_⟩
    rw [hplace', hg, hb, hcl, List.map_cons, List.append_assoc, List.singleton_append]

-- The reader holds the attribute of a form whose bytes it has taken up.
theorem consumes_attribute {r : Reader} (hs : r.channel.Steady) {f : AttributeForm}
    (hf : f.WellFormed) {g : Group} (hg : r.group = some g) {rest : List UInt8}
    (hu : r.channel.upcoming = f.bytes ++ rest) :
    ∃ s, r.Consumes f.bytes s ∧ s.channel.upcoming = rest ∧ s.group = some g ∧
      s.block = r.block ∧ s.attributes = r.attributes ++ [f.toAttribute g r.block] := by
  rw [AttributeForm.bytes, AttributeForm.items, List.flatMap_cons, List.append_assoc] at hu
  have hitem := hf.items _ List.mem_cons_self
  obtain ⟨s, hc, hu', hplace⟩ := consumes_named hs hitem hf.named hf.value hg hu
  obtain ⟨hg', hb, hcur, hcl⟩ : s.group = some g ∧ s.block = r.block ∧
      s.current = some { name := Text.ofUtf8Lossy f.name, group := g, tag := f.tag,
                         values := [.ofBytes f.tag f.value], block := r.block } ∧
      s.closed = r.current.toList ++ r.closed := by
    simpa only [place, Prod.mk.injEq] using hplace
  obtain ⟨t, hc', hu'', hplace'⟩ := consumes_more (hc.steady hs) hcur
    (fun v hv => hf.items _ (List.mem_cons_of_mem _ (List.mem_map_of_mem hv))) hf.more hu'
  refine ⟨t, ?_, hu'', ?_⟩
  · rw [AttributeForm.bytes, AttributeForm.items, List.flatMap_cons]
    exact hc.trans hc'
  · simp only [place, Prod.mk.injEq] at hplace'
    obtain ⟨hg'', hb', hcur', hcl'⟩ := hplace'
    refine ⟨hg''.trans hg', hb'.trans hb, ?_⟩
    rw [attributes, hcur', hcl', hcl, attributes, Option.toList_some, List.singleton_append,
      List.reverse_cons, AttributeForm.toAttribute, List.singleton_append]

theorem consumes_attributes {r : Reader} (hs : r.channel.Steady) {fs : List AttributeForm}
    (hfs : ∀ f ∈ fs, f.WellFormed) {g : Group} (hg : r.group = some g) {rest : List UInt8}
    (hu : r.channel.upcoming = fs.flatMap AttributeForm.bytes ++ rest) :
    ∃ s, r.Consumes (fs.flatMap AttributeForm.bytes) s ∧ s.channel.upcoming = rest ∧
      s.group = some g ∧ s.block = r.block ∧
      s.attributes = r.attributes ++ fs.map (·.toAttribute g r.block) := by
  induction fs generalizing r with
  | nil => exact ⟨r, Consumes.refl r, hu, hg, rfl, by rw [List.map_nil, List.append_nil]⟩
  | cons f fs ih =>
    rw [List.flatMap_cons, List.append_assoc] at hu
    obtain ⟨s, hc, hu', hg', hb, ha⟩ := consumes_attribute hs (hfs f List.mem_cons_self) hg hu
    obtain ⟨t, hc', hu'', hg'', hb', ha'⟩ := ih (hc.steady hs)
      (fun f' hf' => hfs f' (List.mem_cons_of_mem _ hf')) hg' hu'
    refine ⟨t, hc.trans hc', hu'', hg'', hb'.trans hb, ?_⟩
    rw [ha', ha, hb, List.map_cons, List.append_assoc, List.singleton_append]

theorem consumes_group {r : Reader} (hs : r.channel.Steady) {g : GroupForm} (hg : g.WellFormed)
    {rest : List UInt8} (hu : r.channel.upcoming = g.bytes ++ rest) :
    ∃ s, r.Consumes g.bytes s ∧ s.channel.upcoming = rest ∧ s.block = r.block + 1 ∧
      s.attributes = r.attributes ++ g.attributes.map (·.toAttribute g.group (r.block + 1)) := by
  obtain ⟨s, hc, hu', hplace⟩ := consumes_delimiter hs hu
  simp only [place, Prod.mk.injEq] at hplace
  obtain ⟨hg', hb, hcur, hcl⟩ := hplace
  obtain ⟨t, hc', hu'', -, hb', ha⟩ := consumes_attributes (hc.steady hs) hg hg' hu'
  refine ⟨t, hc.trans hc', hu'', hb'.trans hb, ?_⟩
  rw [ha, hb, attributes, hcur, hcl, attributes]
  rfl

theorem consumes_groups {r : Reader} (hs : r.channel.Steady) {gs : List GroupForm}
    (hgs : ∀ g ∈ gs, g.WellFormed) {rest : List UInt8}
    (hu : r.channel.upcoming = gs.flatMap GroupForm.bytes ++ rest) :
    ∃ s, r.Consumes (gs.flatMap GroupForm.bytes) s ∧ s.channel.upcoming = rest ∧
      s.attributes = r.attributes ++
        (gs.zipIdx (r.block + 1)).flatMap fun (g, block) =>
          g.attributes.map (·.toAttribute g.group block) := by
  induction gs generalizing r with
  | nil => exact ⟨r, Consumes.refl r, hu, by rw [List.zipIdx_nil, List.flatMap_nil, List.append_nil]⟩
  | cons g gs ih =>
    rw [List.flatMap_cons, List.append_assoc] at hu
    obtain ⟨s, hc, hu', hb, ha⟩ := consumes_group hs (hgs g List.mem_cons_self) hu
    obtain ⟨t, hc', hu'', ha'⟩ := ih (hc.steady hs)
      (fun g' hg' => hgs g' (List.mem_cons_of_mem _ hg')) hu'
    refine ⟨t, hc.trans hc', hu'', ?_⟩
    rw [ha', ha, hb, List.zipIdx_cons, List.flatMap_cons, List.append_assoc]

end Ipp.Reader
