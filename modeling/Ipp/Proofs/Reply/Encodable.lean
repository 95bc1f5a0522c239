import Ipp.Proofs.Reply.Builder
import Ipp.Proofs.Reply.Echo

/-!
# What can be written

Three things can stop the encoding of an attribute: it has no values, a value that its tag has no encoding
for, or a name or value that is longer than its length can say. `Encodable` excludes the first two, and
then `IsTooLong` tells from the settled values alone whether the encoding is stopped.
-/

namespace Ipp

/-! ## What stops an attribute -/

namespace Attribute

variable {a : Attribute} {root : String}

theorem fault_payload {v : Value} {fault : Fault} (h : a.payload root v = .error fault) :
    fault = .unhandledValueTag a.name a.tag := by
  unfold payload at h
  split at h <;> cases h
  rfl

theorem fault_encodeValue {name : List UInt8} {v : Value} {fault : Fault}
    (h : (a.encodeValue root name v).fault = some fault) :
    fault = .unhandledValueTag a.name a.tag ∨ fault = .valueTooLong a.name := by
  unfold encodeValue at h
  cases hp : a.payload root v with
  | error fault' =>
    rw [hp] at h
    cases h
    exact .inl (fault_payload hp)
  | ok w =>
    rw [hp] at h
    dsimp only at h
    split at h <;> cases h
    exact .inr rfl

/-- Whatever the attribute is, its encoding is stopped by one of three faults. -/
theorem fault_encode {fault : Fault} (h : (a.encode root).fault = some fault) :
    fault = .emptyAttribute a.name ∨ fault = .unhandledValueTag a.name a.tag ∨
      fault = .valueTooLong a.name := by
  unfold encode at h
  cases hvalues : a.values with
  | nil =>
    rw [hvalues] at h
    cases h
    exact .inl rfl
  | cons v vs =>
    rw [hvalues] at h
    dsimp only at h
    split at h
    · cases h
      exact .inr (.inr rfl)
    rcases Encoding.fault_append h with hfirst | hmore
    · exact .inr (fault_encodeValue hfirst)
    · obtain ⟨e, he, hstopped⟩ := Encoding.exists_of_fault_concat hmore
      obtain ⟨w, -, rfl⟩ := List.mem_map.mp he
      exact .inr (fault_encodeValue hstopped)

end Attribute

/-! ## Encodable attributes -/

namespace Value

/-- Whether a tag of the family has an encoding for the value. Bytes can stand behind any tag. -/
def suits (v : Value) (f : Family) : Bool :=
  match v with
  | integer _ => f == .integer
  | boolean _ => f == .boolean
  | string _ => f == .string
  | bytes _ | tagged .. => true

/-- The bytes that a value is written as. -/
def wire : Value → List UInt8
  | integer n => Wire.ofInt32 n
  | boolean b => [if b then 1 else 0]
  | string s => Text.utf8 s
  | bytes bs | tagged _ bs => bs

/-- The tag that a value is written behind, where that of its attribute is `t`. -/
def wireTag (t : ValueTag) : Value → ValueTag
  | tagged tag _ => tag
  | _ => t

end Value

namespace Attribute

/-- There are values, each of them has an encoding, and only texts are made from a template. -/
structure Encodable (a : Attribute) : Prop where
  values : a.values ≠ []
  template : a.template.isSome = true → a.tag.family = .string
  suits : a.template = none → ∀ v ∈ a.values, v.suits a.tag.family = true

/-- The name or a value is longer than its length can say, a value as it is when its template is filled and
the root is in front of it. -/
def IsTooLong (root : String) (a : Attribute) : Prop :=
  Wire.longest < (Text.utf8 a.name).length ∨
    ∃ v ∈ a.values, Wire.longest < (a.settle root v).wire.length

instance (root : String) (a : Attribute) : Decidable (a.IsTooLong root) :=
  inferInstanceAs (Decidable (_ ∨ ∃ v ∈ a.values, Wire.longest < (a.settle root v).wire.length))

variable {a : Attribute} {root : String}

-- The place of an attribute makes no difference.
theorem Encodable.placed (h : a.Encodable) (g : Group) (block : Nat) :
    ({ a with group := g, block } : Attribute).Encodable :=
  ⟨h.values, h.template, h.suits⟩

/-- The values of an encodable attribute are written as the settled ones. -/
theorem Encodable.payload (h : a.Encodable) {v : Value} (hv : v ∈ a.values) :
    a.payload root v = .ok ((a.settle root v).wireTag a.tag, (a.settle root v).wire) := by
  cases ht : a.template with
  | some pattern =>
    have hfamily := h.template (by rw [ht]; rfl)
    simp only [Attribute.payload, settle, ht, hfamily, Value.wireTag, Value.wire]
  | none =>
    have hsuits := h.suits ht v hv
    cases v with
    | integer n =>
      have hfamily : a.tag.family = .integer := beq_iff_eq.mp hsuits
      simp only [Attribute.payload, settle, ht, hfamily, Value.wireTag, Value.wire]
    | boolean b =>
      have hfamily : a.tag.family = .boolean := beq_iff_eq.mp hsuits
      simp only [Attribute.payload, settle, ht, hfamily, Value.wireTag, Value.wire]
    | string s =>
      have hfamily : a.tag.family = .string := beq_iff_eq.mp hsuits
      simp only [Attribute.payload, settle, ht, hfamily, Value.wireTag, Value.wire]
    | bytes bs =>
      cases hfamily : a.tag.family <;>
        simp only [Attribute.payload, settle, ht, hfamily, Value.wireTag, Value.wire]
    | tagged tag bs =>
      cases hfamily : a.tag.family <;>
        simp only [Attribute.payload, settle, ht, hfamily, Value.wireTag, Value.wire]

theorem Encodable.encode_yields (h : a.Encodable) (root : String) :
    ∃ bytes, (a.encode root).Yields bytes (.valueTooLong a.name) (a.IsTooLong root) := by
  obtain ⟨v, vs, hvalues⟩ := List.exists_cons_of_ne_nil h.values
  have hitem : ∀ (name : List UInt8), ∀ w ∈ a.values,
      (a.encodeValue root name w).Yields _ (.valueTooLong a.name)
        (Wire.longest < (a.settle root w).wire.length) :=
    fun name w hw => encodeValue_yields (h.payload hw)
  rw [hvalues] at hitem
  have hmore := Encoding.yields_concat fun w hw => hitem [] w (List.mem_cons_of_mem v hw)
  have hwritten := (hitem (Text.utf8 a.name) v List.mem_cons_self).append hmore
  -- The name is looked at before the values.
  have hlong : a.IsTooLong root ↔ Wire.longest < (Text.utf8 a.name).length ∨
      (Wire.longest < (a.settle root v).wire.length ∨
        ∃ w ∈ vs, Wire.longest < (a.settle root w).wire.length) := by
    simp only [IsTooLong, hvalues, List.mem_cons, exists_eq_or_imp]
  have hencode : a.encode root =
      if Wire.longest < (Text.utf8 a.name).length then .stopped (.valueTooLong a.name)
      else a.encodeValue root (Text.utf8 a.name) v ++ .concat (vs.map (a.encodeValue root [])) := by
    unfold encode
    rw [hvalues]
  rw [hencode]
  by_cases hname : Wire.longest < (Text.utf8 a.name).length
  · rw [if_pos hname]
    exact ⟨[], fun hfits => absurd (hlong.mpr (.inl hname)) hfits, fun _ => rfl⟩
  · rw [if_neg hname]
    exact ⟨_, hwritten.congr (hlong.trans (or_iff_right hname)).symm⟩

/-- The encoding of an encodable attribute is stopped where its name or a value is too long, and by nothing
else. -/
theorem Encodable.fault_encode_iff (h : a.Encodable) {fault : Fault} :
    (a.encode root).fault = some fault ↔ a.IsTooLong root ∧ fault = .valueTooLong a.name := by
  obtain ⟨bytes, hyields⟩ := h.encode_yields root
  by_cases hlong : a.IsTooLong root
  · rw [hyields.stopped hlong, Option.some_inj, eq_comm]
    exact (and_iff_right hlong).symm
  · rw [hyields.whole hlong]
    exact iff_of_false nofun fun hboth => hlong hboth.1

end Attribute

-- A short text of the library is written as it stands, under any root.
theorem Attribute.encode_ofText {tag : ValueTag} (hfamily : tag.family = .string) (huri : tag ≠ .uri)
    {name text : String} (hname : (Text.utf8 name).length ≤ Wire.longest)
    (htext : (Text.utf8 text).length ≤ Wire.longest) (root : String) :
    (ofText tag name text).encode root =
      .ofBytes (AttributeForm.bytes ⟨tag, Text.utf8 name, Text.utf8 text, []⟩) := by
  have hpayload : (ofText tag name text).payload root (.string text) = .ok (tag, Text.utf8 text) := by
    unfold payload ofText
    simp only [hfamily, huri, decide_false, Bool.false_and, Bool.false_eq_true, if_false,
      String.empty_append]
  have hvalue : ((ofText tag name text).encodeValue root (Text.utf8 name) (.string text)).Yields _ _ _ :=
    encodeValue_yields hpayload
  show (if Wire.longest < (Text.utf8 name).length then _ else
    (ofText tag name text).encodeValue root (Text.utf8 name) (.string text) ++ Encoding.concat []) = _
  rw [if_neg (Nat.not_lt.mpr hname), hvalue.whole (Nat.not_lt.mpr htext)]
  rfl

/-! ## Encodable queues -/

/-- Every attribute in every group is encodable. -/
def Queue.Encodable (q : Queue) : Prop :=
  ∀ g, ∀ a ∈ q.attributes g, a.Encodable

theorem Queue.mem_attributes {q : Queue} {g : Group} {a : Attribute} :
    a ∈ q.attributes g ↔ .attribute a ∈ q.list g := by
  rw [attributes_eq, List.mem_filterMap]
  constructor
  · rintro ⟨b | _, hentry, hsome⟩
    · cases hsome
      exact hentry
    · cases hsome
  · exact fun ha => ⟨.attribute a, ha, rfl⟩

theorem mem_replyOrder (g : Group) : g ∈ replyOrder := by
  cases g <;> decide

/-- A reply of encodable attributes is stopped by one that is too long, if there is one, and by nothing
else. -/
theorem Queue.Encodable.fault_encodeReply {q : Queue} (hq : q.Encodable) (root : String) (h : Header)
    (status : Status) :
    match (encodeReply root h status q).fault with
    | none => ∀ g, ∀ a ∈ q.attributes g, ¬a.IsTooLong root
    | some fault => ∃ g, ∃ a ∈ q.attributes g, a.IsTooLong root ∧ fault = .valueTooLong a.name := by
  cases hfault : (encodeReply root h status q).fault with
  | none =>
    intro g a ha hlong
    have hgroup := (encodeReply_bytes hfault).1 g (mem_replyOrder g)
    have hwritten := fault_encode_of_encodeGroup hgroup (Queue.mem_attributes.mp ha)
    have hstopped := (hq g a ha).fault_encode_iff.mpr ⟨hlong, rfl⟩
    rw [hwritten] at hstopped
    cases hstopped
  | some fault =>
    obtain ⟨g, a, ha, hstopped⟩ := exists_of_fault_encodeReply hfault
    have ha' := Queue.mem_attributes.mpr ha
    exact ⟨g, a, ha', (hq g a ha').fault_encode_iff.mp hstopped⟩

end Ipp
