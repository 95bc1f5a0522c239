import Ipp.Proofs.Reply.Queue
import Ipp.Proofs.Request.Form
import Ipp.Reply.Encoding

/-!
# The form of a reply

A reply whose encoding is not stopped is written in the form of a request. `settled` is the attribute
that a queued one is read back as, and `encodeReply_form` the form of a whole reply.
-/

namespace Ipp

/-! ## What is not stopped -/

namespace Encoding

theorem of_append {e next : Encoding} (h : (e ++ next).fault = none) :
    e.fault = none ∧ next.fault = none ∧ (e ++ next).bytes = e.bytes ++ next.bytes := by
  cases he : e.fault with
  | some fault =>
    rw [append_of_fault he, he] at h
    cases h
  | none =>
    rw [append_of_none he] at h ⊢
    exact ⟨rfl, h, rfl⟩

end Encoding

/-! ## Settled values -/

/-- The value that is read back. A template is filled, and the root stands in front of a URI that was made
from a template or starts with a slash. -/
def Attribute.settle (root : String) (a : Attribute) (v : Value) : Value :=
  match a.template, v with
  | some pattern, v => .string ((if a.tag = .uri then root else "") ++ v.fill pattern)
  | none, .string s =>
    .string ((if a.tag = .uri && s.toList.head? = some '/' then root else "") ++ s)
  | none, v => v

/-- The attribute that is read back, but for its place in the message. -/
def Attribute.settled (root : String) (a : Attribute) : Attribute :=
  { a with values := a.values.map (a.settle root), template := none, block := 0 }

/-- The value is one that bytes of the tag stand for. -/
def Value.IsOf (t : ValueTag) (v : Value) : Prop :=
  ∃ bs, t.Fits bs ∧ v = .ofBytes t bs

/-- The value is one that an item behind the named one stands for. -/
def Value.IsAdditional (t : ValueTag) (v : Value) : Prop :=
  ∃ w : ValueTag × List UInt8, lastDelimiter < w.1.byte ∧ (w.1 = t → t.Fits w.2) ∧
    v = .additional t w

/-- The attribute has a name and a tag of its own, and values that can be told apart by their tags; only
texts are made from templates. -/
structure Attribute.Sendable (a : Attribute) : Prop where
  name : a.name ≠ ""
  tag : lastDelimiter < a.tag.byte
  template : a.template.isSome = true → a.tag.family = .string
  first : a.template = none → ∀ v ∈ a.values.head?, v.IsOf a.tag
  values : a.template = none → ∀ v ∈ a.values, v.IsAdditional a.tag

theorem Value.IsOf.isAdditional {t : ValueTag} {v : Value} (h : v.IsOf t)
    (ht : lastDelimiter < t.byte) : v.IsAdditional t := by
  rcases h with ⟨bs, hfit, rfl⟩
  exact ⟨(t, bs), ht, fun _ => hfit, (if_pos rfl).symm⟩

theorem ValueTag.fits_of_string {t : ValueTag} (h : t.family = .string) (bs : List UInt8) :
    t.Fits bs := by
  constructor
  · intro hi
    rw [h] at hi
    cases hi
  · intro hb
    rw [h] at hb
    cases hb

theorem Value.ofBytes_utf8 {t : ValueTag} (h : t.family = .string) (s : String) :
    ofBytes t (Text.utf8 s) = .string s := by
  rw [ofBytes, h]
  simp only [Text.ofUtf8?_utf8, Option.map_some, Option.getD_some]

namespace Attribute

variable {a : Attribute} {root : String} {v : Value}

/-- The value `v` goes out as the tag and bytes of `w`, from which its settled value is read. -/
structure SentAs (root : String) (a : Attribute) (v : Value) (w : ValueTag × List UInt8) : Prop where
  payload : a.payload root v = .ok w
  fits : w.1 = a.tag → a.tag.Fits w.2
  settled : .additional a.tag w = a.settle root v

theorem sentAs_own {bs : List UInt8} (hp : a.payload root v = .ok (a.tag, bs))
    (hfit : a.tag.Fits bs) (hs : .ofBytes a.tag bs = a.settle root v) :
    a.SentAs root v (a.tag, bs) :=
  ⟨hp, fun _ => hfit, (if_pos rfl).trans hs⟩

-- A template gives a text.
theorem sentAs_of_template {pattern : String} (ht : a.template = some pattern)
    (hf : a.tag.family = .string) : ∃ bs, a.SentAs root v (a.tag, bs) := by
  refine ⟨Text.utf8 ((if a.tag = .uri then root else "") ++ v.fill pattern),
    sentAs_own ?_ (ValueTag.fits_of_string hf _) ?_⟩
  · simp only [Attribute.payload, ht, hf]
  · rw [Value.ofBytes_utf8 hf]
    simp only [settle, ht]

-- A value of the attribute's own tag keeps it.
theorem sentAs_of_isOf (ht : a.template = none) (hv : v.IsOf a.tag) :
    ∃ bs, a.SentAs root v (a.tag, bs) := by
  rcases hv with ⟨bs, hfit, rfl⟩
  suffices h : ∃ bs', a.payload root (.ofBytes a.tag bs) = .ok (a.tag, bs') ∧ a.tag.Fits bs' ∧
      .ofBytes a.tag bs' = a.settle root (.ofBytes a.tag bs) by
    obtain ⟨bs', hp, hfit', hs⟩ := h
    exact ⟨bs', sentAs_own hp hfit' hs⟩
  unfold Attribute.payload settle Value.ofBytes
  cases hf : a.tag.family with
  | integer =>
    simp only [ht]
    refine ⟨_, rfl, ⟨fun _ => Wire.length_ofInt32 _, fun hb => ?_⟩, ?_⟩
    · rw [hf] at hb
      cases hb
    · rw [Wire.toInt32_ofInt32]
  | boolean =>
    simp only [ht]
    refine ⟨_, rfl, ⟨fun hi => ?_, fun _ => rfl⟩, ?_⟩
    · rw [hf] at hi
      cases hi
    · cases bs != [0] <;> rfl
  | string =>
    cases hs : Text.ofUtf8? bs with
    | some s =>
      simp only [ht, Option.map_some, Option.getD_some]
      refine ⟨_, rfl, ValueTag.fits_of_string hf _, ?_⟩
      rw [Text.ofUtf8?_utf8]
      rfl
    | none =>
      simp only [ht, Option.map_none, Option.getD_none]
      refine ⟨bs, rfl, hfit, ?_⟩
      rw [hs]
      rfl
  | other =>
    simp only [ht]
    exact ⟨bs, rfl, hfit, rfl⟩

-- A value of another tag keeps that tag and its bytes.
theorem sentAs_tagged (ht : a.template = none) {w : ValueTag × List UInt8} (hw : w.1 ≠ a.tag) :
    a.SentAs root (.tagged w.1 w.2) w := by
  refine ⟨?_, fun h => absurd h hw, (if_neg hw).trans ?_⟩
  · unfold Attribute.payload
    cases a.tag.family <;> simp only [ht]
  · simp only [settle, ht]

theorem Sendable.sentAs_first (ha : a.Sendable) (hv : v ∈ a.values.head?) :
    ∃ bs, a.SentAs root v (a.tag, bs) := by
  cases ht : a.template with
  | some pattern => exact sentAs_of_template ht (ha.template (by rw [ht]; rfl))
  | none => exact sentAs_of_isOf ht (ha.first ht v hv)

theorem Sendable.sentAs (ha : a.Sendable) (hv : v ∈ a.values) :
    ∃ w, lastDelimiter < w.1.byte ∧ a.SentAs root v w := by
  cases ht : a.template with
  | some pattern =>
    have hsent : ∃ bs, a.SentAs root v (a.tag, bs) :=
      sentAs_of_template ht (ha.template (by rw [ht]; rfl))
    obtain ⟨bs, hs⟩ := hsent
    exact ⟨_, ha.tag, hs⟩
  | none =>
    obtain ⟨w, hw, hfit, rfl⟩ := ha.values ht v hv
    by_cases htag : w.1 = a.tag
    · have hsent : ∃ bs, a.SentAs root (.additional a.tag w) (a.tag, bs) :=
        sentAs_of_isOf ht ⟨w.2, hfit htag, if_pos htag⟩
      obtain ⟨bs, hs⟩ := hsent
      exact ⟨_, ha.tag, hs⟩
    · rw [Value.additional, if_neg htag]
      exact ⟨w, hw, sentAs_tagged ht htag⟩

/-! ## Items -/

theorem encodeValue_of_sentAs {name : List UInt8} {w : ValueTag × List UInt8}
    (hs : a.SentAs root v w) (h : (a.encodeValue root name v).fault = none) :
    (a.encodeValue root name v).bytes = (ItemForm.mk w.1 name w.2).bytes ∧
      w.2.length ≤ Wire.longest := by
  unfold encodeValue at h ⊢
  rw [hs.payload] at h ⊢
  by_cases hlong : Wire.longest < w.2.length
  · simp only [if_pos hlong] at h
    cases h
  · simp only [if_neg hlong]
    exact ⟨rfl, Nat.not_lt.mp hlong⟩

-- The values behind the first one are written as items without a name.
theorem encode_additional {vs : List Value}
    (hvs : ∀ v ∈ vs, ∃ w, lastDelimiter < w.1.byte ∧ a.SentAs root v w)
    (h : (Encoding.concat (vs.map (a.encodeValue root []))).fault = none) :
    ∃ ws : List (ValueTag × List UInt8),
      (Encoding.concat (vs.map (a.encodeValue root []))).bytes =
        (ws.map AttributeForm.nameless).flatMap ItemForm.bytes ∧
      (∀ w ∈ ws, (AttributeForm.nameless w).WellFormed ∧ (w.1 = a.tag → a.tag.Fits w.2)) ∧
      ws.map (.additional a.tag) = vs.map (a.settle root) := by
  induction vs with
  | nil => exact ⟨[], rfl, by simp, rfl⟩
  | cons v vs ih =>
    rw [List.map_cons, Encoding.concat] at h ⊢
    obtain ⟨hv, hrest, hbytes⟩ := Encoding.of_append h
    obtain ⟨w, hw, hs⟩ := hvs v List.mem_cons_self
    obtain ⟨hbytes', hlong⟩ := encodeValue_of_sentAs hs hv
    obtain ⟨ws, hws, hform, hvalues⟩ := ih (fun u hu => hvs u (List.mem_cons_of_mem _ hu)) hrest
    refine ⟨w :: ws, ?_, ?_, ?_⟩
    · rw [hbytes, hbytes', hws, List.map_cons, List.flatMap_cons]
      rfl
    · intro u hu
      rcases List.mem_cons.mp hu with rfl | hu
      · exact ⟨⟨hw, Nat.zero_le _, hlong⟩, hs.fits⟩
      · exact hform u hu
    · rw [List.map_cons, List.map_cons, hs.settled, hvalues]

/-- What is written for an attribute is the form of the settled one. -/
theorem Sendable.encode_form (ha : a.Sendable) (h : (a.encode root).fault = none) :
    ∃ f : AttributeForm, f.WellFormed ∧ (a.encode root).bytes = f.bytes ∧
      f.toAttribute a.group 0 = a.settled root := by
  unfold encode at h ⊢
  cases hvalues : a.values with
  | nil =>
    simp only [hvalues] at h
    cases h
  | cons v vs =>
    simp only [hvalues] at h ⊢
    by_cases hlong : Wire.longest < (Text.utf8 a.name).length
    · rw [if_pos hlong] at h
      cases h
    rw [if_neg hlong] at h ⊢
    obtain ⟨hv, hvs, hbytes⟩ := Encoding.of_append h
    have hsent : ∃ bs, a.SentAs root v (a.tag, bs) := ha.sentAs_first (by rw [hvalues]; rfl)
    obtain ⟨bs, hs⟩ := hsent
    obtain ⟨hfirst, hlen⟩ := encodeValue_of_sentAs hs hv
    obtain ⟨ws, hws, hform, hmore⟩ := encode_additional
      (fun u hu => ha.sentAs (by rw [hvalues]; exact List.mem_cons_of_mem v hu)) hvs
    refine ⟨⟨a.tag, Text.utf8 a.name, bs, ws⟩, ⟨?_, Text.utf8_ne_nil ha.name, hs.fits rfl, ?_⟩, ?_, ?_⟩
    · intro i hi
      rcases List.mem_cons.mp hi with rfl | hi
      · exact ⟨ha.tag, Nat.not_lt.mp hlong, hlen⟩
      · obtain ⟨w, hw, rfl⟩ := List.mem_map.mp hi
        exact (hform w hw).1
    · exact fun w hw => (hform w hw).2
    · rw [hbytes, hfirst, hws]
      rfl
    · have hv' : Value.ofBytes a.tag bs = a.settle root v := (if_pos rfl).symm.trans hs.settled
      rw [AttributeForm.toAttribute, settled, hvalues, List.map_cons, hmore, hv',
        Text.ofUtf8Lossy_utf8]

end Attribute

/-! ## Groups -/

/-- The attributes of a group, but for their place in the message. -/
def GroupForm.contents (g : GroupForm) : List Attribute :=
  g.attributes.map (·.toAttribute g.group 0)

/-- Every attribute in the list is sendable and belongs to the group. -/
def EntriesOf (g : Group) (entries : List Entry) : Prop :=
  ∀ a, .attribute a ∈ entries → a.Sendable ∧ a.group = g

theorem EntriesOf.tail {g : Group} {entry : Entry} {entries : List Entry}
    (h : EntriesOf g (entry :: entries)) : EntriesOf g entries :=
  fun a ha => h a (List.mem_cons_of_mem entry ha)

variable {root : String} {g : Group}

-- Entries are written as attributes of the group that is open, and as groups behind it.
theorem encodeEntries_form {entries : List Entry} (he : EntriesOf g entries)
    (h : (encodeEntries root g entries).fault = none) :
    ∃ (fs : List AttributeForm) (gs : List GroupForm),
      (encodeEntries root g entries).bytes =
        fs.flatMap AttributeForm.bytes ++ gs.flatMap GroupForm.bytes ∧
      (∀ f ∈ fs, f.WellFormed) ∧ (∀ g' ∈ gs, g'.WellFormed) ∧
      fs.map (·.toAttribute g 0) ++ gs.flatMap GroupForm.contents =
        (entries.filterMap Entry.attribute?).map (·.settled root) := by
  induction entries with
  | nil => exact ⟨[], [], rfl, by simp, by simp, rfl⟩
  | cons entry entries ih =>
    rcases entry with a | _
    · rw [encodeEntries] at h ⊢
      obtain ⟨ha, hrest, hbytes⟩ := Encoding.of_append h
      obtain ⟨hsend, hgroup⟩ := he a List.mem_cons_self
      obtain ⟨f, hf, hbytes', hsettled⟩ := hsend.encode_form ha
      obtain ⟨fs, gs, hbytes'', hfs, hgs, hcontents⟩ := ih he.tail hrest
      refine ⟨f :: fs, gs, ?_, List.forall_mem_cons.mpr ⟨hf, hfs⟩, hgs, ?_⟩
      · rw [hbytes, hbytes', hbytes'', List.flatMap_cons, List.append_assoc]
      · rw [hgroup] at hsettled
        rw [List.map_cons, hsettled, List.cons_append, hcontents]
        rfl
    · rw [encodeEntries] at h ⊢
      by_cases hlast : entries.isEmpty = true
      · -- nothing follows the marker, so nothing is written
        rw [List.isEmpty_iff.mp hlast]
        exact ⟨[], [], rfl, by simp, by simp, rfl⟩
      · rw [if_neg hlast] at h ⊢
        obtain ⟨-, hrest, hbytes⟩ := Encoding.of_append h
        obtain ⟨fs, gs, hbytes', hfs, hgs, hcontents⟩ := ih he.tail hrest
        refine ⟨[], ⟨g, fs⟩ :: gs, ?_, by simp, List.forall_mem_cons.mpr ⟨hfs, hgs⟩, ?_⟩
        · rw [hbytes, hbytes', List.flatMap_cons, GroupForm.bytes]
          rfl
        · rw [List.flatMap_cons, GroupForm.contents, hcontents]
          rfl

theorem encodeGroup_form {entries : List Entry} (he : EntriesOf g entries)
    (h : (encodeGroup root g entries).fault = none) :
    ∃ gs : List GroupForm, (encodeGroup root g entries).bytes = gs.flatMap GroupForm.bytes ∧
      (∀ g' ∈ gs, g'.WellFormed) ∧
      gs.flatMap GroupForm.contents = (entries.filterMap Entry.attribute?).map (·.settled root) := by
  rw [encodeGroup] at h ⊢
  by_cases hempty : entries.isEmpty = true
  · rw [List.isEmpty_iff.mp hempty]
    exact ⟨[], rfl, by simp, rfl⟩
  · rw [if_neg hempty] at h ⊢
    obtain ⟨-, hrest, hbytes⟩ := Encoding.of_append h
    obtain ⟨fs, gs, hbytes', hfs, hgs, hcontents⟩ := encodeEntries_form he hrest
    refine ⟨⟨g, fs⟩ :: gs, ?_, List.forall_mem_cons.mpr ⟨hfs, hgs⟩, ?_⟩
    · rw [hbytes, hbytes', List.flatMap_cons, GroupForm.bytes]
      rfl
    · rw [List.flatMap_cons, GroupForm.contents, hcontents]

/-! ## Replies -/

/-- Every attribute can be read back, and is queued in its own group. -/
def Queue.Sendable (q : Queue) : Prop :=
  ∀ g, EntriesOf g (q.list g)

theorem encodeGroups_form {q : Queue} (hq : q.Sendable) {order : List Group}
    (h : (Encoding.concat (order.map fun g => encodeGroup root g (q.list g))).fault = none) :
    ∃ gs : List GroupForm,
      (Encoding.concat (order.map fun g => encodeGroup root g (q.list g))).bytes =
        gs.flatMap GroupForm.bytes ∧
      (∀ g ∈ gs, g.WellFormed) ∧
      gs.flatMap GroupForm.contents =
        order.flatMap fun g => (q.attributes g).map (·.settled root) := by
  induction order with
  | nil => exact ⟨[], rfl, by simp, rfl⟩
  | cons g order ih =>
    rw [List.map_cons, Encoding.concat] at h ⊢
    obtain ⟨hg, hrest, hbytes⟩ := Encoding.of_append h
    obtain ⟨gs, hbytes', hgs, hcontents⟩ := encodeGroup_form (hq g) hg
    obtain ⟨gs', hbytes'', hgs', hcontents'⟩ := ih hrest
    refine ⟨gs ++ gs', ?_, List.forall_mem_append.mpr ⟨hgs, hgs'⟩, ?_⟩
    · rw [hbytes, hbytes', hbytes'', List.flatMap_append]
    · rw [List.flatMap_append, hcontents, hcontents', List.flatMap_cons, Queue.attributes_eq]

/-- The header that a reply is read back with. -/
def Header.ofReply (h : Header) (status : Status) : Header :=
  { major := h.replyVersion.1
    minor := h.replyVersion.2
    operation := status
    requestId := h.requestId }

/-- A reply that is not stopped is written in the form of a request, with the settled attributes of the
queue in the order of a reply. -/
theorem encodeReply_form {h : Header} {status : Status} {q : Queue} (hq : q.Sendable)
    (hfault : (encodeReply root h status q).fault = none) :
    ∃ f : RequestForm, f.WellFormed ∧ (encodeReply root h status q).bytes = f.bytes ∧
      f.header = h.ofReply status ∧
      f.groups.flatMap GroupForm.contents =
        replyOrder.flatMap fun g => (q.attributes g).map (·.settled root) := by
  rw [encodeReply] at hfault ⊢
  obtain ⟨hfault, -, hend⟩ := Encoding.of_append hfault
  obtain ⟨-, hgroups, hbytes⟩ := Encoding.of_append hfault
  obtain ⟨gs, hbytes', hgs, hcontents⟩ := encodeGroups_form hq hgroups
  refine ⟨⟨h.ofReply status, gs⟩, hgs, ?_, rfl, hcontents⟩
  rw [hend, hbytes, hbytes', List.append_assoc]
  rfl

/-! ## Places -/

/-- The attribute without its place in the message that it came in. -/
def Attribute.unplaced (a : Attribute) : Attribute :=
  { a with block := 0 }

theorem RequestForm.unplaced_attributes (f : RequestForm) :
    f.attributes.map Attribute.unplaced = f.groups.flatMap GroupForm.contents := by
  suffices h : ∀ (gs : List GroupForm) (n : Nat),
      ((gs.zipIdx n).flatMap fun p => p.1.attributes.map (·.toAttribute p.1.group p.2)).map
        Attribute.unplaced = gs.flatMap GroupForm.contents from h f.groups 1
  intro gs
  induction gs with
  | nil => exact fun _ => rfl
  | cons g gs ih =>
    intro n
    rw [List.zipIdx_cons, List.flatMap_cons, List.map_append, ih, List.flatMap_cons,
      GroupForm.contents, List.map_map]
    rfl

end Ipp
