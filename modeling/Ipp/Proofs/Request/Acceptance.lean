import Ipp.Exchange.Parsing
import Ipp.Proofs.Request.Reading

/-!
# Which requests are read

A request is read when its bytes are those of a well-formed form with any document behind them, and only
then; the attributes read are those of the form, and the reader stops right behind the end tag.
-/

namespace Ipp

open Calls

namespace Reader

/-! ## What was read -/

/-- What stood between two readers of which the second was reached by one part. -/
inductive Part (r s : Reader) : Bool → Prop
  | ending (upcoming : r.channel.upcoming = endOfAttributes :: s.channel.upcoming)
      (place : s.place = r.place) : Part r s false
  | delimiter (g : Group) (upcoming : r.channel.upcoming = g.delimiter :: s.channel.upcoming)
      (place : s.place = (some g, r.block + 1, none, r.current.toList ++ r.closed)) : Part r s true
  | named (i : ItemForm) (wellFormed : i.WellFormed) (hasName : i.name ≠ [])
      (fits : i.tag.Fits i.value) (upcoming : r.channel.upcoming = i.bytes ++ s.channel.upcoming)
      (g : Group) (group : r.group = some g)
      (place : s.place = (some g, r.block,
        some { name := Text.ofUtf8Lossy i.name, group := g, tag := i.tag,
               values := [.ofBytes i.tag i.value], block := r.block },
        r.current.toList ++ r.closed)) : Part r s true
  | nameless (v : ValueTag × List UInt8) (wellFormed : (AttributeForm.nameless v).WellFormed)
      (upcoming : r.channel.upcoming = (AttributeForm.nameless v).bytes ++ s.channel.upcoming)
      (a : Attribute) (current : r.current = some a) (fits : v.1 = a.tag → a.tag.Fits v.2)
      (place : s.place = (r.group, r.block,
        some { a with values := a.values ++ [.additional a.tag v] }, r.closed)) : Part r s true

theorem readNamed_ok {r s : Reader} {tag : ValueTag} {n : UInt16}
    (h : readNamed tag n r = .ok () s) :
    ∃ name value g, name.length = n.toNat ∧ value.length ≤ Wire.longest ∧ tag.Fits value ∧
      r.channel.Reads s.channel ∧
      r.channel.upcoming = name ++ (Wire.counted value ++ s.channel.upcoming) ∧
      r.group = some g ∧
      s.place = (some g, r.block,
        some { name := Text.ofUtf8Lossy name, group := g, tag, values := [.ofBytes tag value],
               block := r.block },
        r.current.toList ++ r.closed) := by
  rw [readNamed] at h
  obtain ⟨name, t, hname, h⟩ := bind_eq_ok.mp h
  obtain ⟨c, hc, rfl⟩ := onChannel_eq_ok.mp hname
  obtain ⟨value, t, hvalue, h⟩ := bind_eq_ok.mp h
  obtain ⟨d, rfl, hreads', hl, hu'⟩ := getCounted_ok hvalue
  obtain ⟨hreads, hlen, hu⟩ := Channel.getBytes_ok hc
  rw [get_bind] at h
  cases hg : r.group with
  | none =>
    simp only [hg] at h
    cases h
  | some g =>
    simp only [hg] at h
    cases hv : Value.decode tag (Text.ofUtf8Lossy name) value with
    | error fault =>
      rw [hv] at h
      cases h
    | ok v =>
      have hfit := Value.fits_of_decode hv
      rw [Value.decode_of_fits hfit] at h
      cases h
      refine ⟨name, value, g, hlen, hl, hfit, hreads.trans hreads', ?_, rfl, rfl⟩
      rw [hu]
      exact congrArg _ hu'

theorem readAdditional_ok {r s : Reader} {tag : ValueTag} (h : readAdditional tag r = .ok () s) :
    ∃ value a, value.length ≤ Wire.longest ∧ r.channel.Reads s.channel ∧
      r.channel.upcoming = Wire.counted value ++ s.channel.upcoming ∧
      r.current = some a ∧ (tag = a.tag → a.tag.Fits value) ∧
      s.place = (r.group, r.block,
        some { a with values := a.values ++ [.additional a.tag (tag, value)] }, r.closed) := by
  rw [readAdditional, get_bind] at h
  cases ha : r.current with
  | none =>
    simp only [ha] at h
    cases h
  | some a =>
    simp only [ha] at h
    obtain ⟨value, t, hvalue, h⟩ := bind_eq_ok.mp h
    obtain ⟨c, rfl, hreads, hl, hu⟩ := getCounted_ok hvalue
    by_cases ht : tag = a.tag
    · rw [if_pos ht] at h
      have hadd : Value.additional a.tag (tag, value) = .ofBytes a.tag value := if_pos ht
      cases hv : Value.decode tag a.name value with
      | error fault =>
        rw [hv] at h
        cases h
      | ok v =>
        have hfit := Value.fits_of_decode hv
        rw [ht] at hfit
        rw [ht, Value.decode_of_fits hfit] at h
        cases h
        exact ⟨value, a, hl, hreads, hu, rfl, fun _ => hfit, by rw [hadd]; rfl⟩
    · rw [if_neg ht] at h
      have hadd : Value.additional a.tag (tag, value) = .tagged tag value := if_neg ht
      by_cases hf : tag.family = a.tag.family
      · rw [if_neg (not_not_intro hf)] at h
        cases h
        exact ⟨value, a, hl, hreads, hu, rfl, fun ht' => absurd ht' ht, by rw [hadd]; rfl⟩
      · rw [if_pos hf] at h
        cases h
        exact ⟨value, a, hl, hreads, hu, rfl, fun ht' => absurd ht' ht, by rw [hadd]; rfl⟩

theorem readPart_ok {r s : Reader} {goesOn : Bool} (h : readPart r = .ok goesOn s) :
    r.channel.Reads s.channel ∧ Part r s goesOn := by
  rw [readPart_eq] at h
  obtain ⟨tag, t, htag, h⟩ := bind_eq_ok.mp h
  obtain ⟨c, hc, rfl⟩ := onChannel_eq_ok.mp htag
  obtain ⟨hreads, hu⟩ := Channel.getByte_ok hc
  by_cases hend : tag = endOfAttributes
  · subst hend
    rw [behindTag_end] at h
    cases h
    exact ⟨hreads, .ending hu rfl⟩
  by_cases hdel : tag ≤ lastDelimiter
  · rw [behindTag, if_neg hend, if_pos hdel] at h
    cases hg : Group.ofDelimiter? tag with
    | none =>
      rw [hg] at h
      cases h
    | some g =>
      rw [hg] at h
      cases h
      refine ⟨hreads, .delimiter g ?_ rfl⟩
      rw [Group.delimiter_of_ofDelimiter? hg]
      exact hu
  · have hitem : lastDelimiter < tag := UInt8.not_le.mp hdel
    rw [behindTag_item hitem] at h
    obtain ⟨n, t, hn, h⟩ := bind_eq_ok.mp h
    obtain ⟨d, hd, rfl⟩ := onChannel_eq_ok.mp hn
    obtain ⟨hreads', hu'⟩ := Channel.getUInt16_ok hd
    by_cases hzero : n = 0
    · rw [if_pos hzero] at h
      obtain ⟨⟨⟩, t, h, hs⟩ := bind_eq_ok.mp h
      cases hs
      obtain ⟨value, a, hl, hreads'', hu'', ha, hfit, hplace⟩ := readAdditional_ok h
      refine ⟨hreads.trans (hreads'.trans hreads''),
        .nameless (⟨tag⟩, value) ⟨hitem, Nat.zero_le _, hl⟩ ?_ a ha hfit hplace⟩
      rw [hu, hu', hzero]
      exact congrArg (fun rest => tag :: (Wire.ofUInt16 0 ++ rest)) hu''
    · rw [if_neg hzero] at h
      obtain ⟨⟨⟩, t, h, hs⟩ := bind_eq_ok.mp h
      cases hs
      obtain ⟨name, value, g, hlen, hl, hfit, hreads'', hu'', hg, hplace⟩ := readNamed_ok h
      have hname : name.length ≤ Wire.longest := by
        have := n.toNat_lt
        rw [hlen, Wire.longest]
        omega
      have hi : (ItemForm.mk ⟨tag⟩ name value).WellFormed := ⟨hitem, hname, hl⟩
      refine ⟨hreads.trans (hreads'.trans hreads''),
        .named ⟨⟨tag⟩, name, value⟩ hi ?_ hfit ?_ g hg hplace⟩
      · rintro rfl
        exact hzero (UInt16.toNat_inj.mp hlen.symm)
      · have hn' : UInt16.ofNat name.length = n := by rw [hlen, UInt16.ofNat_toNat]
        rw [hu, hu', hi.append_bytes, hn']
        exact congrArg (fun rest => tag :: (Wire.ofUInt16 n ++ rest)) hu''

/-! ## What comes to the end -/

/-- The attributes that a reader holds when it has also read items that add values to the current
attribute, attributes of the current group, and groups. -/
def completed (r : Reader) (more : List (ValueTag × List UInt8)) (attributes : List AttributeForm)
    (groups : List GroupForm) : List Attribute :=
  r.closed.reverse ++ (r.current.toList.map (·.extended more) ++
    (r.group.toList.flatMap (fun g => attributes.map (·.toAttribute g r.block)) ++
      (groups.zipIdx (r.block + 1)).flatMap fun (g, block) =>
        g.attributes.map (·.toAttribute g.group block)))

/-- The bytes up to the end tag are those of items that add values to the current attribute, of
attributes of the current group, and of groups; `s` is the reader behind the end tag. -/
structure Tail (r : Reader) (more : List (ValueTag × List UInt8)) (attributes : List AttributeForm)
    (groups : List GroupForm) (s : Reader) : Prop where
  upcoming : r.channel.upcoming = (more.map AttributeForm.nameless).flatMap ItemForm.bytes ++
    (attributes.flatMap AttributeForm.bytes ++
      (groups.flatMap GroupForm.bytes ++ endOfAttributes :: s.channel.upcoming))
  held : s.attributes = r.completed more attributes groups
  namelessFormed : ∀ v ∈ more, (AttributeForm.nameless v).WellFormed
  attributesFormed : ∀ f ∈ attributes, f.WellFormed
  groupsFormed : ∀ g ∈ groups, g.WellFormed
  behindName : r.current = none → more = []
  inGroup : r.group = none → attributes = []
  fits : ∀ a, r.current = some a → ∀ v ∈ more, v.1 = a.tag → a.tag.Fits v.2

theorem current_of_place {s : Reader} {g : Option Group} {block : Nat} {a : Option Attribute}
    {closed : List Attribute} (h : s.place = (g, block, a, closed)) : s.current = a :=
  congrArg (·.2.2.1) h

theorem completed_of_place {r : Reader} {g : Option Group} {block : Nat} {a : Option Attribute}
    {closed : List Attribute} (h : r.place = (g, block, a, closed))
    (more : List (ValueTag × List UInt8)) (attributes : List AttributeForm) (groups : List GroupForm) :
    r.completed more attributes groups =
      ({ channel := r.channel, group := g, block, current := a, closed } : Reader).completed
        more attributes groups := by
  obtain ⟨rfl, rfl, rfl, rfl⟩ : r.group = g ∧ r.block = block ∧ r.current = a ∧ r.closed = closed := by
    simpa only [place, Prod.mk.injEq] using h
  rfl

theorem attributes_eq_completed {r s : Reader} (h : s.place = r.place) :
    s.attributes = r.completed [] [] [] := by
  have hcurrent : s.current = r.current := congrArg (·.2.2.1) h
  have hclosed : s.closed = r.closed := congrArg (·.2.2.2) h
  rw [attributes, hcurrent, hclosed, completed]
  cases r.group <;> cases r.current <;> simp

-- A delimiter closes the current attribute and opens a group in front of those that follow.
theorem completed_delimiter {r s : Reader} {g : Group}
    (h : s.place = (some g, r.block + 1, none, r.current.toList ++ r.closed))
    (attributes : List AttributeForm) (groups : List GroupForm) :
    s.completed [] attributes groups = r.completed [] [] (⟨g, attributes⟩ :: groups) := by
  rw [completed_of_place h]
  unfold completed
  cases r.group <;> cases r.current <;> simp

-- A named item closes the current attribute and stands in front of those that follow in the group.
theorem completed_named {r s : Reader} {i : ItemForm} {g : Group} (hg : r.group = some g)
    (h : s.place = (some g, r.block,
      some { name := Text.ofUtf8Lossy i.name, group := g, tag := i.tag,
             values := [.ofBytes i.tag i.value], block := r.block },
      r.current.toList ++ r.closed))
    (more : List (ValueTag × List UInt8)) (attributes : List AttributeForm) (groups : List GroupForm) :
    s.completed more attributes groups =
      r.completed [] (⟨i.tag, i.name, i.value, more⟩ :: attributes) groups := by
  rw [completed_of_place h]
  unfold completed
  rw [hg]
  cases r.current <;> simp [Attribute.extended, AttributeForm.toAttribute]

-- An item without a name adds one value to the current attribute.
theorem completed_nameless {r s : Reader} {v : ValueTag × List UInt8} {a : Attribute}
    (ha : r.current = some a)
    (h : s.place = (r.group, r.block,
      some { a with values := a.values ++ [.additional a.tag v] }, r.closed))
    (more : List (ValueTag × List UInt8)) (attributes : List AttributeForm) (groups : List GroupForm) :
    s.completed more attributes groups = r.completed (v :: more) attributes groups := by
  rw [completed_of_place h]
  unfold completed
  rw [ha]
  simp [Attribute.extended]

-- The reader comes to the end tag only over the bytes of forms, and holds their attributes then.
theorem tail_of_readWithin {bound : Nat} {r s : Reader} (h : readWithin bound r = .ok () s) :
    ∃ more attributes groups, Tail r more attributes groups s := by
  -- From the end tag backwards: each part is put in front of the form of what follows it.
  induction bound generalizing r with
  | zero => cases h
  | succ bound ih =>
    obtain ⟨goesOn, t, hpart, h⟩ := bind_eq_ok.mp h
    obtain ⟨-, hp⟩ := readPart_ok hpart
    cases hp with
    | ending hu hplace =>
      cases h
      exact ⟨[], [], [], hu, attributes_eq_completed hplace, by simp, by simp, by simp, fun _ => rfl,
        fun _ => rfl, by simp⟩
    | delimiter g hu hplace =>
      obtain ⟨more, attributes, groups, ht⟩ := ih h
      have hmore := ht.behindName (current_of_place hplace)
      have hu' := ht.upcoming
      have hheld := ht.held
      rw [hmore] at hu' hheld
      rw [completed_delimiter hplace] at hheld
      refine ⟨[], [], ⟨g, attributes⟩ :: groups, ?_, hheld, by simp, by simp, ?_, fun _ => rfl,
        fun _ => rfl, by simp⟩
      · rw [hu, hu', List.flatMap_cons]
        simp only [List.map_nil, List.flatMap_nil, List.nil_append, GroupForm.bytes, List.cons_append,
          List.append_assoc]
      · intro g' hg'
        rcases List.mem_cons.mp hg' with rfl | hg'
        · exact ht.attributesFormed
        · exact ht.groupsFormed g' hg'
    | named i hi hn hfit hu g hg hplace =>
      obtain ⟨more, attributes, groups, ht⟩ := ih h
      have hf : (AttributeForm.mk i.tag i.name i.value more).WellFormed := by
        refine ⟨fun j hj => ?_, hn, hfit, fun v hv hvt => ?_⟩
        · rcases List.mem_cons.mp hj with rfl | hj
          · exact hi
          · obtain ⟨v, hv, rfl⟩ := List.mem_map.mp hj
            exact ht.namelessFormed v hv
        · exact ht.fits _ (current_of_place hplace) v hv hvt
      have hheld := ht.held
      rw [completed_named hg hplace] at hheld
      refine ⟨[], ⟨i.tag, i.name, i.value, more⟩ :: attributes, groups, ?_, hheld, by simp, ?_,
        ht.groupsFormed, fun _ => rfl, fun hnone => ?_, by simp⟩
      · rw [hu, ht.upcoming, List.flatMap_cons]
        simp only [List.map_nil, List.flatMap_nil, List.nil_append, AttributeForm.bytes,
          AttributeForm.items, List.flatMap_cons, List.append_assoc]
      · intro f' hf'
        rcases List.mem_cons.mp hf' with rfl | hf'
        · exact hf
        · exact ht.attributesFormed f' hf'
      · rw [hg] at hnone
        cases hnone
    | nameless v hv hu a ha hfit hplace =>
      obtain ⟨more, attributes, groups, ht⟩ := ih h
      have hheld := ht.held
      rw [completed_nameless ha hplace] at hheld
      refine ⟨v :: more, attributes, groups, ?_, hheld, ?_, ht.attributesFormed, ht.groupsFormed, ?_, ?_,
        ?_⟩
      · rw [hu, ht.upcoming, List.map_cons, List.flatMap_cons, List.append_assoc]
      · intro w hw
        rcases List.mem_cons.mp hw with rfl | hw
        · exact hv
        · exact ht.namelessFormed w hw
      · intro hnone
        rw [ha] at hnone
        cases hnone
      · intro hnone
        exact ht.inGroup ((congrArg (·.1) hplace).trans hnone)
      · intro a' ha' w hw hwt
        rw [ha] at ha'
        cases ha'
        rcases List.mem_cons.mp hw with rfl | hw
        · exact hfit hwt
        · exact ht.fits _ (current_of_place hplace) w hw hwt

/-! ## Whole sections -/

/-- The section that well-formed groups and an end tag make up is read, and nothing behind it. -/
theorem read_of_bytes {c : Channel} (hc : c.Steady) {gs : List GroupForm}
    (hgs : ∀ g ∈ gs, g.WellFormed) {document : List UInt8}
    (hu : c.upcoming = gs.flatMap GroupForm.bytes ++ endOfAttributes :: document) :
    ∃ s, read { channel := c } = .ok () s ∧ c.Reads s.channel ∧ s.channel.upcoming = document ∧
      s.attributes = (gs.zipIdx 1).flatMap fun (g, block) =>
        g.attributes.map (·.toAttribute g.group block) := by
  have hs : ({ channel := c } : Reader).channel.Steady := hc
  obtain ⟨s, hread, hu', ha⟩ := consumes_groups hs hgs hu
  obtain ⟨d, hd, hreads, hu''⟩ := (hread.steady hc).getByte_cons hu'
  obtain ⟨parts, hparts, hrun⟩ := hread.run
  -- every part takes a byte, and one is left for the end tag
  have hleft : c.left + 1 = c.left - parts + 1 + parts := by
    have := c.left_eq
    rw [hu, List.length_append] at this
    omega
  refine ⟨{ s with channel := d }, ?_, hread.reads.trans hreads, hu'', ha⟩
  rw [read, get_bind, hleft, hrun, readWithin, readPart_eq, Calls.bind_of_ok (a := false)]
  · rfl
  · rw [Calls.bind_of_ok (onChannel_of_ok hd)]
    rfl

-- Only such a section is read, and what is held then are its attributes.
theorem read_ok {c : Channel} {s : Reader} (h : read { channel := c } = .ok () s) :
    ∃ gs : List GroupForm, (∀ g ∈ gs, g.WellFormed) ∧
      c.upcoming = gs.flatMap GroupForm.bytes ++ endOfAttributes :: s.channel.upcoming ∧
      s.attributes = (gs.zipIdx 1).flatMap fun (g, block) =>
        g.attributes.map (·.toAttribute g.group block) := by
  rw [read, get_bind] at h
  obtain ⟨more, attributes, groups, ht⟩ := tail_of_readWithin h
  have hu := ht.upcoming
  rw [ht.behindName rfl, ht.inGroup rfl] at hu
  exact ⟨groups, ht.groupsFormed, hu, ht.held⟩

end Reader

/-! ## Requests -/

namespace Exchange

theorem onChannel_of_ok {α : Type} {call : Channel.Action α} {e : Exchange} {a : α} {c : Channel}
    (h : call e.channel = .ok a c) : onChannel call e = .ok a { e with channel := c } := by
  rw [onChannel, h]

theorem onChannel_eq_ok {α : Type} {call : Channel.Action α} {e e' : Exchange} {a : α} :
    onChannel call e = .ok a e' ↔ ∃ c, call e.channel = .ok a c ∧ e' = { e with channel := c } := by
  constructor
  · intro h
    rw [onChannel] at h
    split at h
    · next a' c hc =>
      cases h
      exact ⟨c, hc, rfl⟩
    · cases h
  · rintro ⟨c, hc, rfl⟩
    exact onChannel_of_ok hc

theorem final_onChannel {α : Type} (call : Channel.Action α) (e : Exchange) :
    final (onChannel call e) = { e with channel := final (call e.channel) } := by
  rw [onChannel]
  cases call e.channel <;> rfl

/-- What is read where the declared length allows a header. -/
def headerFields : Action Unit := do
  let major ← onChannel Channel.getByte
  modify fun e => { e with header.major := major }
  let minor ← onChannel Channel.getByte
  modify fun e => { e with header.minor := minor }
  let operation ← onChannel Channel.getUInt16
  modify fun e => { e with header.operation := operation }
  let requestId ← onChannel Channel.getUInt32
  modify fun e => { e with header.requestId := requestId }

/-- The length that was declared, if any, is that of more than a header. -/
def DeclaresEnough (e : Exchange) : Prop :=
  ∀ n, e.channel.remaining = some n → Header.length < n

theorem parseHeader_of_enough {e : Exchange} (h : e.DeclaresEnough) :
    parseHeader e = headerFields e := by
  rw [parseHeader, get_bind]
  cases hr : e.channel.remaining with
  | none => rfl
  | some n =>
    have hn := h n hr
    simp only
    rw [if_neg (Nat.not_le.mpr hn)]
    rfl

theorem parseHeader_of_not_enough {e : Exchange} (h : ¬e.DeclaresEnough) :
    ∃ n, e.channel.remaining = some n ∧ parseHeader e = .error (.requestTooShort n) e := by
  unfold DeclaresEnough at h
  cases hr : e.channel.remaining with
  | none => exact absurd (fun n hn => by rw [hr] at hn; cases hn) h
  | some n =>
    have hn : n ≤ Header.length := by
      refine Nat.not_lt.mp fun hlt => h fun m hm => ?_
      rw [hr] at hm
      cases hm
      exact hlt
    refine ⟨n, rfl, ?_⟩
    rw [parseHeader, get_bind]
    simp only [hr]
    rw [if_pos hn]
    rfl

theorem enough_of_parseHeader {e e' : Exchange} (h : parseHeader e = .ok () e') :
    e.DeclaresEnough := by
  by_cases henough : e.DeclaresEnough
  · exact henough
  · obtain ⟨n, -, hfault⟩ := parseHeader_of_not_enough henough
    rw [hfault] at h
    cases h

theorem headerFields_of_bytes {e : Exchange} (hs : e.channel.Steady) {h : Header}
    {rest : List UInt8} (hu : e.channel.upcoming = h.bytes ++ rest) :
    ∃ c, headerFields e = .ok () { e with channel := c, header := h } ∧ e.channel.Reads c ∧
      c.upcoming = rest := by
  rw [Header.bytes, List.cons_append, List.cons_append, List.append_assoc] at hu
  obtain ⟨c₁, h₁, hr₁, hu⟩ := hs.getByte_cons hu
  obtain ⟨c₂, h₂, hr₂, hu⟩ := (hr₁.steady hs).getByte_cons hu
  have hr₂ := hr₁.trans hr₂
  obtain ⟨c₃, h₃, hr₃, hu⟩ := (hr₂.steady hs).getUInt16_append hu
  have hr₃ := hr₂.trans hr₃
  obtain ⟨c₄, h₄, hr₄, hu⟩ := (hr₃.steady hs).getUInt32_append hu
  refine ⟨c₄, ?_, hr₃.trans hr₄, hu⟩
  rw [headerFields, bind_of_ok (onChannel_of_ok h₁)]
  show (onChannel Channel.getByte >>= _) _ = _
  rw [bind_of_ok (onChannel_of_ok h₂)]
  show (onChannel Channel.getUInt16 >>= _) _ = _
  rw [bind_of_ok (onChannel_of_ok h₃)]
  show (onChannel Channel.getUInt32 >>= _) _ = _
  rw [bind_of_ok (onChannel_of_ok h₄)]
  rfl

theorem headerFields_ok {e e' : Exchange} (h : headerFields e = .ok () e') :
    ∃ c header, e' = { e with channel := c, header } ∧ e.channel.Reads c ∧
      e.channel.upcoming = header.bytes ++ c.upcoming := by
  obtain ⟨major, t, hget, h⟩ := bind_eq_ok.mp h
  obtain ⟨c₁, h₁, rfl⟩ := onChannel_eq_ok.mp hget
  obtain ⟨⟨⟩, t, hset, h⟩ := bind_eq_ok.mp h
  cases hset
  obtain ⟨minor, t, hget, h⟩ := bind_eq_ok.mp h
  obtain ⟨c₂, h₂, rfl⟩ := onChannel_eq_ok.mp hget
  obtain ⟨⟨⟩, t, hset, h⟩ := bind_eq_ok.mp h
  cases hset
  obtain ⟨operation, t, hget, h⟩ := bind_eq_ok.mp h
  obtain ⟨c₃, h₃, rfl⟩ := onChannel_eq_ok.mp hget
  obtain ⟨⟨⟩, t, hset, h⟩ := bind_eq_ok.mp h
  cases hset
  obtain ⟨requestId, t, hget, h⟩ := bind_eq_ok.mp h
  obtain ⟨c₄, h₄, rfl⟩ := onChannel_eq_ok.mp hget
  cases h
  obtain ⟨hr₁, hu₁⟩ := Channel.getByte_ok h₁
  obtain ⟨hr₂, hu₂⟩ := Channel.getByte_ok h₂
  obtain ⟨hr₃, hu₃⟩ := Channel.getUInt16_ok h₃
  obtain ⟨hr₄, hu₄⟩ := Channel.getUInt32_ok h₄
  refine ⟨c₄, ⟨major, minor, operation, requestId⟩, rfl, ((hr₁.trans hr₂).trans hr₃).trans hr₄, ?_⟩
  rw [hu₁, hu₂, hu₃, hu₄, Header.bytes, List.cons_append, List.cons_append, List.append_assoc]

-- What `parse` makes of an exchange over a section that is read.
theorem parseBody_of_read {e : Exchange} {r : Reader}
    (h : Reader.read { channel := e.channel } = .ok () r) :
    ∃ log, parseBody e = .ok () { e with
      channel := r.channel, request := e.request ++ r.attributes, status := Status.ok, log } := by
  rw [parseBody, h]
  cases ht : e.traceRequests with
  | true => exact ⟨_, by simp only [adopt, ht, if_true]; rfl⟩
  | false => exact ⟨_, by simp only [adopt, ht, Bool.false_eq_true, if_false]; rfl⟩

theorem parseBody_ok {e e' : Exchange} (h : parseBody e = .ok () e') :
    ∃ r, Reader.read { channel := e.channel } = .ok () r ∧ ∃ log, e' = { e with
      channel := r.channel, request := e.request ++ r.attributes, status := Status.ok, log } := by
  cases hr : Reader.read { channel := e.channel } with
  | error fault r =>
    rw [parseBody, hr] at h
    cases h
  | ok a r =>
    obtain ⟨log, hp⟩ := parseBody_of_read hr
    rw [hp] at h
    cases h
    exact ⟨r, rfl, log, rfl⟩

/-- A well-formed request is read, and nothing behind it. -/
theorem parse_of_bytes {e : Exchange} (hs : e.channel.Steady) (henough : e.DeclaresEnough)
    {f : RequestForm} (hf : f.WellFormed) {document : List UInt8}
    (hu : e.channel.upcoming = f.bytes ++ document) :
    ∃ c log, parse e = .ok () { e with
        channel := c, header := f.header, request := e.request ++ f.attributes
        status := Status.ok, log } ∧
      e.channel.Reads c ∧ c.upcoming = document := by
  rw [RequestForm.bytes, List.append_assoc, List.append_assoc, List.singleton_append] at hu
  obtain ⟨c, hc, hreads, hu⟩ := headerFields_of_bytes hs hu
  obtain ⟨r, hr, hreads', hu, ha⟩ := Reader.read_of_bytes (hreads.steady hs) hf hu
  obtain ⟨log, hp⟩ := parseBody_of_read (e := { e with channel := c, header := f.header }) hr
  refine ⟨r.channel, log, ?_, hreads.trans hreads', hu⟩
  rw [parse, bind_of_ok ((parseHeader_of_enough henough).trans hc), hp, ha]
  rfl

/-- Only well-formed requests are read, and what is read then are their header and attributes. -/
theorem wellFormed_of_parse {e e' : Exchange} (h : parse e = .ok () e') :
    ∃ f : RequestForm, f.WellFormed ∧ e.channel.upcoming = f.bytes ++ e'.channel.upcoming ∧
      e'.header = f.header ∧ e'.request = e.request ++ f.attributes := by
  obtain ⟨⟨⟩, t, hheader, hbody⟩ := bind_eq_ok.mp h
  rw [parseHeader_of_enough (enough_of_parseHeader hheader)] at hheader
  obtain ⟨c, header, rfl, -, hu⟩ := headerFields_ok hheader
  obtain ⟨r, hr, log, rfl⟩ := parseBody_ok hbody
  obtain ⟨gs, hgs, hu', hattributes⟩ := Reader.read_ok hr
  refine ⟨⟨header, gs⟩, hgs, ?_, rfl, congrArg (e.request ++ ·) hattributes⟩
  rw [hu, RequestForm.bytes, List.append_assoc, List.append_assoc, List.singleton_append]
  exact congrArg _ hu'

-- Bytes that begin with a form do so in one way: any exchange over them reads that form.
theorem form_unique {f f' : RequestForm} (hf : f.WellFormed) (hf' : f'.WellFormed)
    {document document' : List UInt8} (h : f.bytes ++ document = f'.bytes ++ document') :
    f.header = f'.header ∧ f.attributes = f'.attributes ∧ document = document' := by
  let source : Source := { rest := f.bytes ++ document }
  have hs : source.Steady := fun _ he => absurd he List.not_mem_nil
  have hsteady : (opened {} source {} none).channel.Steady := Channel.steady_opened hs {} none _
  have henough : (opened {} source {} none).DeclaresEnough := fun _ hn => nomatch hn
  have hu₀ : (opened {} source {} none).channel.upcoming = f.bytes ++ document := rfl
  obtain ⟨c, log, hparse, -, hu⟩ := parse_of_bytes hsteady henough hf hu₀
  obtain ⟨c', log', hparse', -, hu'⟩ := parse_of_bytes hsteady henough hf' (hu₀.trans h)
  rw [hparse] at hparse'
  injection hparse' with _ he
  have hchannel : c = c' := congrArg channel he
  refine ⟨congrArg header he, congrArg request he, ?_⟩
  rw [← hu, ← hu', hchannel]

/-! ## Whole inputs -/

-- What an exchange has read is a form that its input begins with, however much was declared.
theorem exists_form_of_parse {config : Config} {source : Source} {sink : Sink} {declared : Option Nat}
    {e : Exchange} (h : parse (opened config source sink declared) = .ok () e) :
    ∃ (f : RequestForm) (document : List UInt8), f.WellFormed ∧ source.rest = f.bytes ++ document ∧
      e.header = f.header ∧ e.request = f.attributes := by
  obtain ⟨f, hf, hu, hheader, hrequest⟩ := wellFormed_of_parse h
  have hrest : (opened config source sink declared).channel.upcoming ++
      (opened config source sink declared).channel.beyond = source.rest :=
    Channel.untaken_append_beyond _
  rw [hu, List.append_assoc] at hrest
  exact ⟨f, _, hf, hrest.symm, hheader, hrequest⟩

-- There is no other such form.
theorem form_of_parse {config : Config} {source : Source} {sink : Sink} {declared : Option Nat}
    {e : Exchange} (h : parse (opened config source sink declared) = .ok () e) {f : RequestForm}
    (hf : f.WellFormed) {document : List UInt8} (hd : source.rest = f.bytes ++ document) :
    e.header = f.header ∧ e.request = f.attributes := by
  obtain ⟨f', document', hf', hd', hheader, hrequest⟩ := exists_form_of_parse h
  obtain ⟨hheader', hattributes, -⟩ := form_unique hf' hf (hd'.symm.trans hd)
  exact ⟨hheader.trans hheader', hrequest.trans hattributes⟩

theorem upcoming_opened (config : Config) (source : Source) (sink : Sink) :
    (opened config source sink (some source.rest.length)).channel.upcoming = source.rest :=
  List.take_length

/-- A request of declared length is read exactly when it is written in a well-formed form. What is read
then are the header and the attributes of that form, and what is still to be delivered is the document
behind the end tag. -/
theorem parse_iff_wellFormed (config : Config) {source : Source} (hs : source.Steady) (sink : Sink) :
    ((∃ e, parse (opened config source sink (some source.rest.length)) = .ok () e) ↔
      ∃ (f : RequestForm) (document : List UInt8),
        f.WellFormed ∧ source.rest = f.bytes ++ document) ∧
    ∀ (f : RequestForm) (document : List UInt8), f.WellFormed → source.rest = f.bytes ++ document →
      ∃ e, parse (opened config source sink (some source.rest.length)) = .ok () e ∧
        e.header = f.header ∧ e.request = f.attributes ∧ e.channel.upcoming = document ∧
        e.channel.source.taken = source.taken + f.bytes.length + e.channel.buffered := by
  have hsteady : (opened config source sink (some source.rest.length)).channel.Steady :=
    Channel.steady_opened hs sink _ _
  have hread : ∀ (f : RequestForm) (document : List UInt8), f.WellFormed →
      source.rest = f.bytes ++ document →
      ∃ e, parse (opened config source sink (some source.rest.length)) = .ok () e ∧
        e.header = f.header ∧ e.request = f.attributes ∧ e.channel.upcoming = document ∧
        e.channel.source.taken = source.taken + f.bytes.length + e.channel.buffered := by
    intro f document hf hd
    have henough : (opened config source sink (some source.rest.length)).DeclaresEnough := by
      intro n hn
      cases hn
      have := f.header_lt_length
      rw [hd, List.length_append]
      omega
    obtain ⟨c, log, hp, hreads, hu⟩ := parse_of_bytes hsteady henough hf
      ((upcoming_opened config source sink).trans hd)
    refine ⟨_, hp, rfl, rfl, hu, ?_⟩
    have hbefore : (opened config source sink (some source.rest.length)).channel.untaken.length =
        f.bytes.length + document.length := by
      rw [← List.length_append, ← hd]
      exact congrArg List.length (upcoming_opened config source sink)
    have hafter : c.buffered + c.untaken.length = document.length := by
      rw [← hu, Channel.upcoming, List.length_append, Channel.buffered]
    have htaken := hreads.taken
    have hfresh : (opened config source sink (some source.rest.length)).channel.source.taken =
      source.taken := rfl
    show c.source.taken = source.taken + f.bytes.length + c.buffered
    omega
  refine ⟨⟨?_, ?_⟩, hread⟩
  · rintro ⟨e, he⟩
    obtain ⟨f, hf, hu, -⟩ := wellFormed_of_parse he
    exact ⟨f, _, hf, (upcoming_opened config source sink).symm.trans hu⟩
  · rintro ⟨f, document, hf, hd⟩
    obtain ⟨e, he, -⟩ := hread f document hf hd
    exact ⟨e, he⟩

/-- A request for the attributes of a printer, with one operation attribute of three values, the last of
another tag. -/
def inquiry : RequestForm :=
  { header := { major := 1, minor := 1, operation := 0x000B, requestId := 7 }
    groups := [⟨.operation, [⟨.keyword, [97], [98], [(.keyword, [99]), (.integer, [0, 1])]⟩]⟩] }

/-- The request and two more bytes, which come one, and later five at a time. -/
def inquirySource : Source :=
  { rest := inquiry.bytes ++ [8, 9], script := [.upTo 1, .interrupted, .upTo 5, .upTo 5] }

theorem parse_inquiry :
    ∃ e, parse (opened {} inquirySource {} (some inquirySource.rest.length)) = .ok () e ∧
      e.header = inquiry.header ∧
      e.request =
        [{ name := "a", group := .operation, tag := .keyword, block := 1
           values := [.string "b", .string "c", .tagged .integer [0, 1]] }] ∧
      e.channel.upcoming = [8, 9] := by
  have hsteady : inquirySource.Steady := by decide
  have hform : inquiry.WellFormed := by decide
  obtain ⟨-, hread⟩ := parse_iff_wellFormed {} hsteady {}
  obtain ⟨e, he, hheader, hrequest, hdocument, -⟩ := hread inquiry [8, 9] hform rfl
  exact ⟨e, he, hheader, hrequest.trans (by decide), hdocument⟩

end Exchange
end Ipp
