import Ipp.Proofs.Reply.Form
import Ipp.Proofs.Reply.Queue

/-!
# What becomes of an attribute that is sent back

An attribute that was received goes out in the form in which it came, but for three things that are not
kept as bytes: a name that is no text, a flag other than zero or one, and a URI that starts with a slash.
`echoed` is the form that it goes out in. Nothing but its length can keep it from being written.
-/

namespace Ipp

/-! ## Values -/

/-- Whether a value is sent back behind the root: the text of a URI that starts with a slash. -/
def ValueTag.isRooted (t : ValueTag) (bs : List UInt8) : Bool :=
  t = .uri && (Text.ofUtf8? bs).any (·.toList.head? = some '/')

/-- The bytes that a value of the tag is sent back as. -/
def ValueTag.echo (root : String) (t : ValueTag) (bs : List UInt8) : List UInt8 :=
  match t.family with
  | .boolean => if bs = [0] then [0] else [1]
  | .string => if t.isRooted bs then Text.utf8 root ++ bs else bs
  | .integer | .other => bs

/-- The tag and bytes that a value is sent back as. Where the tag is not that of the attribute, they are
those that were received. -/
def ValueTag.echoItem (root : String) (own : ValueTag) (w : ValueTag × List UInt8) :
    ValueTag × List UInt8 :=
  (w.1, if w.1 = own then own.echo root w.2 else w.2)

/-- The value comes back as it was received. -/
structure ValueTag.Keeps (t : ValueTag) (bs : List UInt8) : Prop where
  flag : t.family = .boolean → bs = [0] ∨ bs = [1]
  uri : t.isRooted bs = false

instance (t : ValueTag) (bs : List UInt8) : Decidable (t.Keeps bs) :=
  decidable_of_iff ((t.family = .boolean → bs = [0] ∨ bs = [1]) ∧ t.isRooted bs = false)
    ⟨fun h => ⟨h.1, h.2⟩, fun h => ⟨h.flag, h.uri⟩⟩

theorem ValueTag.Keeps.echo {t : ValueTag} {bs : List UInt8} (h : t.Keeps bs) (root : String) :
    t.echo root bs = bs := by
  unfold ValueTag.echo
  cases hf : t.family with
  | boolean =>
    rcases h.flag hf with rfl | rfl
    · rfl
    · rfl
  | string => exact if_neg (by rw [h.uri]; decide)
  | integer => rfl
  | other => rfl

/-! ## Encodings that may be stopped -/

namespace Encoding

theorem fault_append {e next : Encoding} {fault : Fault} (h : (e ++ next).fault = some fault) :
    e.fault = some fault ∨ next.fault = some fault := by
  cases he : e.fault with
  | some fault' =>
    rw [append_of_fault he] at h
    exact .inl (he.symm.trans h)
  | none =>
    rw [append_of_none he] at h
    exact .inr h

-- What stops several encodings in a row is what stops one of them.
theorem exists_of_fault_concat {es : List Encoding} {fault : Fault}
    (h : (concat es).fault = some fault) : ∃ e ∈ es, e.fault = some fault := by
  induction es with
  | nil => cases h
  | cons e es ih =>
    rcases fault_append h with he | hes
    · exact ⟨e, List.mem_cons_self, he⟩
    · obtain ⟨e', he', hfault⟩ := ih hes
      exact ⟨e', List.mem_cons_of_mem e he', hfault⟩

theorem of_concat {es : List Encoding} (h : (concat es).fault = none) :
    (∀ e ∈ es, e.fault = none) ∧ (concat es).bytes = es.flatMap Encoding.bytes := by
  induction es with
  | nil => exact ⟨nofun, rfl⟩
  | cons e es ih =>
    rw [concat] at h ⊢
    obtain ⟨he, hrest, hbytes⟩ := of_append h
    obtain ⟨hes, hbytes'⟩ := ih hrest
    exact ⟨List.forall_mem_cons.mpr ⟨he, hes⟩, by rw [hbytes, hbytes', List.flatMap_cons]⟩

end Encoding

/-- The encoding is that of `bytes`, unless something is too long, which stops it by `fault`. -/
structure Encoding.Yields (e : Encoding) (bytes : List UInt8) (fault : Fault) (tooLong : Prop) :
    Prop where
  whole : ¬tooLong → e = .ofBytes bytes
  stopped : tooLong → e.fault = some fault

namespace Encoding

variable {e e' : Encoding} {bytes bytes' : List UInt8} {fault : Fault} {p p' : Prop}

theorem Yields.congr (h : e.Yields bytes fault p) (hp : p ↔ p') : e.Yields bytes fault p' :=
  ⟨fun hp' => h.whole (mt hp.mp hp'), fun hp' => h.stopped (hp.mpr hp')⟩

theorem Yields.append (h : e.Yields bytes fault p) (h' : e'.Yields bytes' fault p') :
    (e ++ e').Yields (bytes ++ bytes') fault (p ∨ p') where
  whole hp := by
    rw [h.whole (mt .inl hp), h'.whole (mt .inr hp)]
    rfl
  stopped hp := by
    by_cases hstopped : p
    · rw [append_of_fault (h.stopped hstopped), h.stopped hstopped]
    · rw [h.whole hstopped]
      exact h'.stopped (hp.resolve_left hstopped)

theorem yields_concat {α : Type} {encode : α → Encoding} {bytes : α → List UInt8} {p : α → Prop}
    {as : List α} (h : ∀ a ∈ as, (encode a).Yields (bytes a) fault (p a)) :
    (concat (as.map encode)).Yields (as.flatMap bytes) fault (∃ a ∈ as, p a) := by
  induction as with
  | nil => exact ⟨fun _ => rfl, fun hp => by simp at hp⟩
  | cons a as ih =>
    have hrest := ih fun b hb => h b (List.mem_cons_of_mem a hb)
    exact ((h a List.mem_cons_self).append hrest).congr (by simp)

end Encoding

/-! ## Attributes -/

namespace Attribute

variable {a : Attribute} {root : String}

-- A value of the attribute's own tag.
theorem payload_ofBytes (ht : a.template = none) {bs : List UInt8} (hfit : a.tag.Fits bs) :
    a.payload root (.ofBytes a.tag bs) = .ok (a.tag, a.tag.echo root bs) := by
  unfold payload ValueTag.echo Value.ofBytes
  cases hf : a.tag.family with
  | integer =>
    simp only [ht]
    exact congrArg (fun bytes => Except.ok (a.tag, bytes)) (Wire.ofUInt32_toUInt32 (hfit.integer hf))
  | boolean =>
    simp only [ht]
    by_cases hb : bs = [0]
    · rw [if_pos hb, hb]
      rfl
    · have hflag : (bs != [0]) = true := bne_iff_ne.mpr hb
      rw [if_neg hb, hflag]
      rfl
  | string =>
    cases hs : Text.ofUtf8? bs with
    | some s =>
      obtain rfl := Text.utf8_of_ofUtf8? hs
      simp only [ht, Option.map_some, Option.getD_some, ValueTag.isRooted, hs, Option.any_some]
      by_cases hrooted : (decide (a.tag = .uri) && decide (s.toList.head? = some '/')) = true
      · rw [if_pos hrooted, if_pos hrooted, Text.utf8_append]
      · rw [if_neg hrooted, if_neg hrooted, String.empty_append]
    | none =>
      simp only [ht, Option.map_none, Option.getD_none, ValueTag.isRooted, hs, Option.any_none,
        Bool.and_false, Bool.false_eq_true, if_false]
  | other => simp only [ht]

theorem payload_additional (ht : a.template = none) {w : ValueTag × List UInt8}
    (hfit : w.1 = a.tag → a.tag.Fits w.2) :
    a.payload root (.additional a.tag w) = .ok (a.tag.echoItem root w) := by
  unfold Value.additional ValueTag.echoItem
  by_cases hw : w.1 = a.tag
  · rw [if_pos hw, if_pos hw, payload_ofBytes ht (hfit hw), hw]
  · rw [if_neg hw, if_neg hw]
    have hsent : a.SentAs root (.tagged w.1 w.2) w := sentAs_tagged ht hw
    exact hsent.payload

theorem encodeValue_yields {name : List UInt8} {v : Value} {w : ValueTag × List UInt8}
    (h : a.payload root v = .ok w) :
    (a.encodeValue root name v).Yields (ItemForm.mk w.1 name w.2).bytes (.valueTooLong a.name)
      (Wire.longest < w.2.length) := by
  unfold encodeValue
  rw [h]
  exact ⟨fun hlong => if_neg hlong, fun hlong => congrArg Encoding.fault (if_pos hlong)⟩

end Attribute

namespace AttributeForm

/-- The form that the attribute is sent back in. -/
def echoed (root : String) (f : AttributeForm) : AttributeForm :=
  { tag := f.tag
    name := Text.utf8 (Text.ofUtf8Lossy f.name)
    value := f.tag.echo root f.value
    more := f.more.map (f.tag.echoItem root) }

/-- The values of an attribute with their tags, the named one first. -/
def values (f : AttributeForm) : List (ValueTag × List UInt8) :=
  (f.tag, f.value) :: f.more

/-- The name or a value is sent back longer than its length can say. -/
def Outgrows (root : String) (f : AttributeForm) : Prop :=
  Wire.longest < (f.echoed root).name.length ∨
    ∃ w ∈ (f.echoed root).values, Wire.longest < w.2.length

instance (root : String) (f : AttributeForm) : Decidable (f.Outgrows root) :=
  inferInstanceAs (Decidable (_ ∨ ∃ w ∈ (f.echoed root).values, Wire.longest < w.2.length))

theorem outgrows_iff (root : String) (f : AttributeForm) :
    f.Outgrows root ↔ Wire.longest < (f.echoed root).name.length ∨
      Wire.longest < (f.echoed root).value.length ∨
        ∃ w ∈ f.more, Wire.longest < (f.tag.echoItem root w).2.length := by
  have hmore : (∃ w ∈ (f.echoed root).more, Wire.longest < w.2.length) ↔
      ∃ w ∈ f.more, Wire.longest < (f.tag.echoItem root w).2.length := by
    constructor
    · rintro ⟨w, hw, hlong⟩
      obtain ⟨v, hv, rfl⟩ := List.mem_map.mp hw
      exact ⟨v, hv, hlong⟩
    · rintro ⟨v, hv, hlong⟩
      exact ⟨_, List.mem_map_of_mem hv, hlong⟩
  rw [Outgrows, values, ← hmore]
  simp only [List.mem_cons, exists_eq_or_imp]

theorem bytes_echoed (root : String) (f : AttributeForm) :
    (f.echoed root).bytes = (ItemForm.mk f.tag (f.echoed root).name (f.echoed root).value).bytes ++
      f.more.flatMap fun w => (nameless (f.tag.echoItem root w)).bytes := by
  rw [bytes, items, List.flatMap_cons, List.flatMap_map, echoed, List.flatMap_map]

theorem encode_toAttribute (root : String) (f : AttributeForm) (g : Group) (block : Nat) :
    (f.toAttribute g block).encode root =
      if Wire.longest < (f.echoed root).name.length then
        .stopped (.valueTooLong (Text.ofUtf8Lossy f.name))
      else (f.toAttribute g block).encodeValue root (f.echoed root).name (.ofBytes f.tag f.value) ++
        .concat (f.more.map fun w =>
          (f.toAttribute g block).encodeValue root [] (.additional f.tag w)) := by
  unfold Attribute.encode
  show (if Wire.longest < (Text.utf8 (Text.ofUtf8Lossy f.name)).length then _ else _ ++
    Encoding.concat ((f.more.map (Value.additional f.tag)).map _)) = _
  rw [List.map_map]
  rfl

/-- Only what is too long keeps an attribute that was read from being sent back, in its echoed form. -/
theorem WellFormed.encode_yields {f : AttributeForm} (hf : f.WellFormed) (root : String) (g : Group)
    (block : Nat) : ((f.toAttribute g block).encode root).Yields (f.echoed root).bytes
      (.valueTooLong (Text.ofUtf8Lossy f.name)) (f.Outgrows root) := by
  have ht : (f.toAttribute g block).template = none := rfl
  have hvalue : ((f.toAttribute g block).encodeValue root (f.echoed root).name
      (.ofBytes f.tag f.value)).Yields _ (.valueTooLong (Text.ofUtf8Lossy f.name)) _ :=
    Attribute.encodeValue_yields (Attribute.payload_ofBytes ht hf.value)
  have hmore : (Encoding.concat (f.more.map fun w =>
      (f.toAttribute g block).encodeValue root [] (.additional f.tag w))).Yields _ _ _ :=
    Encoding.yields_concat fun w hw =>
      Attribute.encodeValue_yields (Attribute.payload_additional ht (hf.more w hw))
  have hvalues := hvalue.append hmore
  rw [encode_toAttribute, bytes_echoed]
  refine Encoding.Yields.congr ?_ (outgrows_iff root f).symm
  by_cases hname : Wire.longest < (f.echoed root).name.length
  · rw [if_pos hname]
    exact ⟨fun h => absurd (.inl hname) h, fun _ => rfl⟩
  · rw [if_neg hname]
    exact hvalues.congr (or_iff_right hname).symm

/-! ## What comes back as it is -/

/-- The name is text, and every value of the attribute's own tag comes back as it was received. -/
structure IsPlain (f : AttributeForm) : Prop where
  name : (Text.ofUtf8? f.name).isSome = true
  values : ∀ w ∈ f.values, w.1 = f.tag → f.tag.Keeps w.2

instance (f : AttributeForm) : Decidable f.IsPlain :=
  decidable_of_iff ((Text.ofUtf8? f.name).isSome = true ∧
      ∀ w ∈ f.values, w.1 = f.tag → f.tag.Keeps w.2)
    ⟨fun h => ⟨h.1, h.2⟩, fun h => ⟨h.name, h.values⟩⟩

theorem IsPlain.echoed {f : AttributeForm} (h : f.IsPlain) (root : String) : f.echoed root = f := by
  obtain ⟨s, hs⟩ := Option.isSome_iff_exists.mp h.name
  have hname : Text.utf8 (Text.ofUtf8Lossy f.name) = f.name := by
    rw [Text.ofUtf8Lossy, hs]
    exact Text.utf8_of_ofUtf8? hs
  have hvalue : f.tag.echo root f.value = f.value :=
    (h.values (f.tag, f.value) List.mem_cons_self rfl).echo root
  have hmore : f.more.map (f.tag.echoItem root) = f.more := by
    refine (List.map_congr_left fun w hw => ?_).trans (List.map_id f.more)
    unfold ValueTag.echoItem
    split
    · next htag => rw [(h.values w (List.mem_cons_of_mem _ hw) htag).echo root]; rfl
    · rfl
  rw [AttributeForm.echoed, hname, hvalue, hmore]

end AttributeForm

/-! ## Groups -/

variable {root : String} {g : Group}

-- Attributes that were read and are refused are written in their echoed forms.
theorem encodeEntries_unsupported {ps : List PlacedForm} (hps : ∀ p ∈ ps, p.form.WellFormed)
    (h : (encodeEntries root g (ps.map fun p => .attribute p.toAttribute.unsupported)).fault = none) :
    (encodeEntries root g (ps.map fun p => .attribute p.toAttribute.unsupported)).bytes =
      ps.flatMap fun p => (p.form.echoed root).bytes := by
  induction ps with
  | nil => rfl
  | cons p ps ih =>
    rw [List.map_cons, encodeEntries] at h ⊢
    obtain ⟨hp, hrest, hbytes⟩ := Encoding.of_append h
    have hyields := (hps p List.mem_cons_self).encode_yields root .unsupported p.block
    have hfits : ¬p.form.Outgrows root := by
      intro hlong
      cases (hyields.stopped hlong).symm.trans hp
    have hechoed : (p.toAttribute.unsupported.encode root).bytes = (p.form.echoed root).bytes :=
      congrArg Encoding.bytes (hyields.whole hfits)
    rw [hbytes, hechoed, ih (fun q hq => hps q (List.mem_cons_of_mem p hq)) hrest, List.flatMap_cons]

-- The entries that were queued last are written last.
theorem encodeEntries_append {entries more : List Entry}
    (h : (encodeEntries root g (entries ++ more)).fault = none) :
    (encodeEntries root g more).fault = none ∧
      ∃ earlier, (encodeEntries root g (entries ++ more)).bytes =
        earlier ++ (encodeEntries root g more).bytes := by
  induction entries with
  | nil => exact ⟨h, [], rfl⟩
  | cons entry entries ih =>
    rcases entry with a | _ <;>
    · rw [List.cons_append, encodeEntries] at h ⊢
      obtain ⟨-, hrest, hbytes⟩ := Encoding.of_append h
      obtain ⟨hmore, earlier, hearlier⟩ := ih hrest
      exact ⟨hmore, _, by rw [hbytes, hearlier, ← List.append_assoc]⟩

-- What stops the entries of a group is one of its attributes.
theorem exists_of_fault_encodeEntries {entries : List Entry} {fault : Fault}
    (h : (encodeEntries root g entries).fault = some fault) :
    ∃ a, .attribute a ∈ entries ∧ (a.encode root).fault = some fault := by
  induction entries with
  | nil => cases h
  | cons entry entries ih =>
    have hbehind : (encodeEntries root g entries).fault = some fault →
        ∃ a, .attribute a ∈ entry :: entries ∧ (a.encode root).fault = some fault := by
      intro hrest
      obtain ⟨a, ha, hfault⟩ := ih hrest
      exact ⟨a, List.mem_cons_of_mem entry ha, hfault⟩
    rcases entry with a | _
    · rcases Encoding.fault_append h with ha | hrest
      · exact ⟨a, List.mem_cons_self, ha⟩
      · exact hbehind hrest
    · rcases Encoding.fault_append h with hmark | hrest
      · split at hmark <;> cases hmark
      · exact hbehind hrest

theorem exists_of_fault_encodeGroup {entries : List Entry} {fault : Fault}
    (h : (encodeGroup root g entries).fault = some fault) :
    ∃ a, .attribute a ∈ entries ∧ (a.encode root).fault = some fault := by
  rw [encodeGroup] at h
  split at h
  · cases h
  · exact exists_of_fault_encodeEntries h

-- Where a group is written, each of its attributes is.
theorem fault_encode_of_encodeEntries {entries : List Entry}
    (h : (encodeEntries root g entries).fault = none) {a : Attribute} (ha : .attribute a ∈ entries) :
    (a.encode root).fault = none := by
  induction entries with
  | nil => cases ha
  | cons entry entries ih =>
    rcases entry with b | _
    · obtain ⟨hb, hrest, -⟩ := Encoding.of_append h
      cases ha with
      | head => exact hb
      | tail _ ha => exact ih hrest ha
    · cases ha with
      | tail _ ha => exact ih (Encoding.of_append h).2.1 ha

theorem fault_encode_of_encodeGroup {entries : List Entry}
    (h : (encodeGroup root g entries).fault = none) {a : Attribute} (ha : .attribute a ∈ entries) :
    (a.encode root).fault = none := by
  have hfilled : ¬entries.isEmpty = true := by
    rw [List.isEmpty_iff]
    exact List.ne_nil_of_mem ha
  rw [encodeGroup, if_neg hfilled] at h
  exact fault_encode_of_encodeEntries (Encoding.of_append h).2.1 ha

/-! ## Replies -/

-- What stops a reply is one of its attributes.
theorem exists_of_fault_encodeReply {h : Header} {status : Status} {q : Queue} {fault : Fault}
    (hfault : (encodeReply root h status q).fault = some fault) :
    ∃ g a, .attribute a ∈ q.list g ∧ (a.encode root).fault = some fault := by
  have hgroups : (Encoding.concat (replyOrder.map fun g => encodeGroup root g (q.list g))).fault =
      some fault := by
    rcases Encoding.fault_append hfault with hfront | hend
    · rcases Encoding.fault_append hfront with hheader | hgroups
      · cases hheader
      · exact hgroups
    · cases hend
  obtain ⟨e, he, hstopped⟩ := Encoding.exists_of_fault_concat hgroups
  obtain ⟨g, -, rfl⟩ := List.mem_map.mp he
  obtain ⟨a, ha, hstopped'⟩ := exists_of_fault_encodeGroup hstopped
  exact ⟨g, a, ha, hstopped'⟩

-- A reply that is not stopped is its header, its groups and the end tag.
theorem encodeReply_bytes {h : Header} {status : Status} {q : Queue}
    (hfault : (encodeReply root h status q).fault = none) :
    (∀ g ∈ replyOrder, (encodeGroup root g (q.list g)).fault = none) ∧
      (encodeReply root h status q).bytes = encodeReplyHeader h status ++
        ((replyOrder.flatMap fun g => (encodeGroup root g (q.list g)).bytes) ++ [endOfAttributes]) := by
  rw [encodeReply] at hfault ⊢
  obtain ⟨hfault, -, hend⟩ := Encoding.of_append hfault
  obtain ⟨-, hgroups, hbytes⟩ := Encoding.of_append hfault
  obtain ⟨hall, hconcat⟩ := Encoding.of_concat hgroups
  refine ⟨fun g hg => hall _ (List.mem_map_of_mem hg), ?_⟩
  rw [hend, hbytes, hconcat, List.flatMap_map, List.append_assoc]
  rfl
end Ipp
