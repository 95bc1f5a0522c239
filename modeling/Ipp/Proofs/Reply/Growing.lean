import Ipp.Proofs.Reply.Builder
import Ipp.Proofs.Reply.Encodable
import Ipp.Proofs.Request.Contents

/-!
# How a queue grows

Nothing that was queued is ever changed or removed: every change appends entries to the lists. What the
builders append is encodable, whatever they are given.
-/

namespace Ipp

namespace Queue

/-- From `q` to `q'` entries were appended to the lists, and the attributes among them have `P`. -/
def Extends (P : Attribute → Prop) (q q' : Queue) : Prop :=
  ∀ g, ∃ more, q'.list g = q.list g ++ more ∧ ∀ a, .attribute a ∈ more → P a

variable {P P' : Attribute → Prop} {q q' q'' : Queue}

theorem Extends.refl (q : Queue) : q.Extends P q :=
  fun _ => ⟨[], (List.append_nil _).symm, nofun⟩

theorem Extends.trans (h : q.Extends P q') (h' : q'.Extends P q'') : q.Extends P q'' := by
  intro g
  obtain ⟨more, hlist, hmore⟩ := h g
  obtain ⟨more', hlist', hmore'⟩ := h' g
  refine ⟨more ++ more', by rw [hlist', hlist, List.append_assoc], fun a ha => ?_⟩
  rcases List.mem_append.mp ha with ha | ha
  · exact hmore a ha
  · exact hmore' a ha

theorem Extends.mono (h : q.Extends P q') (hp : ∀ a, P a → P' a) : q.Extends P' q' := by
  intro g
  obtain ⟨more, hlist, hmore⟩ := h g
  exact ⟨more, hlist, fun a ha => hp a (hmore a ha)⟩

theorem extends_append (q : Queue) (g : Group) {entry : Entry} (h : ∀ a, entry = .attribute a → P a) :
    q.Extends P (q.append g entry) := by
  intro g'
  rw [list_append]
  by_cases hg : g = g'
  · rw [if_pos hg]
    exact ⟨[entry], rfl, fun a ha => h a (List.mem_singleton.mp ha).symm⟩
  · rw [if_neg hg]
    exact ⟨[], rfl, nofun⟩

theorem extends_insert (q : Queue) {a : Attribute} (ha : P a) : q.Extends P (q.insert a) := by
  apply q.extends_append
  rintro _ ⟨⟩
  exact ha

theorem extends_refuse (q : Queue) {refused : List Attribute} (h : ∀ a ∈ refused, P a.unsupported) :
    q.Extends P (q.refuse refused) := by
  induction refused generalizing q with
  | nil => exact .refl q
  | cons a refused ih =>
    exact (q.extends_insert (h a List.mem_cons_self)).trans
      (ih _ fun b hb => h b (List.mem_cons_of_mem a hb))

theorem Extends.operation (h : q.Extends P q') : q.operation <+: q'.operation := by
  obtain ⟨more, hlist, -⟩ := h .operation
  exact ⟨more, hlist.symm⟩

-- An attribute that is queued was queued before, or has `P`.
theorem Extends.of_mem (h : q.Extends P q') {g : Group} {a : Attribute} (ha : a ∈ q'.attributes g) :
    a ∈ q.attributes g ∨ P a := by
  obtain ⟨more, hlist, hmore⟩ := h g
  rw [mem_attributes, hlist] at ha
  rcases List.mem_append.mp ha with ha | ha
  · exact .inl (mem_attributes.mpr ha)
  · exact .inr (hmore a ha)

theorem Encodable.extends (h : q.Encodable) (hext : q.Extends Attribute.Encodable q') : q'.Encodable := by
  intro g a ha
  rcases hext.of_mem ha with ha | ha
  · exact h g a ha
  · exact ha

/-! ## Builders -/

/-- Where the change succeeds it extends the queue by attributes that have `P`. -/
def Grows (P : Attribute → Prop) (change : Queue → Except Fault Queue) : Prop :=
  ∀ {q q' : Queue}, change q = .ok q' → q.Extends P q'

theorem Grows.mono {change : Queue → Except Fault Queue} (h : Grows P change) (hp : ∀ a, P a → P' a) :
    Grows P' change :=
  fun hq => (h hq).mono hp

variable {g : Group} {tag : ValueTag} {name : String}

theorem grows_add {builder : String} {want : Family} {values : List Value}
    (hvalues : ∀ v ∈ values, v.suits want = true) :
    Grows Attribute.Encodable (add builder want g tag name values) := by
  intro q q' h
  unfold add at h
  split at h
  · cases h
  next hfamily =>
  split at h
  · cases h
  next hsome =>
  cases h
  apply q.extends_insert
  refine ⟨mt List.isEmpty_iff.mpr hsome, nofun, fun _ v hv => ?_⟩
  have hwant : tag.family = want := Decidable.of_not_not hfamily
  show v.suits tag.family = true
  rw [hwant]
  exact hvalues v hv

theorem grows_addIntegers (ns : List Int32) :
    Grows Attribute.Encodable (addIntegers g tag name ns) := by
  apply grows_add
  intro v hv
  obtain ⟨n, -, rfl⟩ := List.mem_map.mp hv
  rfl

theorem grows_addInteger (n : Int32) : Grows Attribute.Encodable (addInteger g tag name n) :=
  grows_add fun v hv => by
    cases List.mem_singleton.mp hv
    rfl

theorem grows_addStrings (ss : List String) : Grows Attribute.Encodable (addStrings g tag name ss) := by
  apply grows_add
  intro v hv
  obtain ⟨s, -, rfl⟩ := List.mem_map.mp hv
  rfl

theorem grows_addString (s : String) : Grows Attribute.Encodable (addString g tag name s) :=
  grows_add fun v hv => by
    cases List.mem_singleton.mp hv
    rfl

theorem grows_addBoolean (b : Bool) : Grows Attribute.Encodable (addBoolean g tag name b) :=
  grows_add fun v hv => by
    cases List.mem_singleton.mp hv
    rfl

theorem grows_addOutOfBand : Grows Attribute.Encodable (addOutOfBand g tag name) := by
  intro q q' h
  unfold addOutOfBand at h
  split at h
  · cases h
    apply q.extends_insert
    refine ⟨List.cons_ne_nil _ _, nofun, fun _ v hv => ?_⟩
    cases List.mem_singleton.mp hv
    rfl
  · cases h

theorem grows_addTemplates (pattern : String) (args : List Value) :
    Grows Attribute.Encodable (addTemplates g tag name pattern args) := by
  intro q q' h
  unfold addTemplates at h
  split at h
  · cases h
  next hfamily =>
  split at h
  · cases h
  next hsome =>
  split at h
  · cases h
  · cases h
    apply q.extends_insert
    exact ⟨mt List.isEmpty_iff.mpr hsome, fun _ => Decidable.of_not_not hfamily, nofun⟩

theorem grows_addStandard : Grows Attribute.Encodable addStandard := by
  have htext : ∀ {tag : ValueTag} {name text : String}, tag.family = .string →
      (Attribute.ofText tag name text).Encodable := by
    intro tag name text hfamily
    refine ⟨List.cons_ne_nil _ _, nofun, fun _ v hv => ?_⟩
    cases List.mem_singleton.mp hv
    exact beq_iff_eq.mpr hfamily
  intro q q' h
  rw [addStandard_eq] at h
  cases h
  exact (q.extends_insert (htext rfl)).trans (extends_insert _ (htext rfl))

-- A copy is what is copied, in another place.
theorem grows_addCopy {a : Attribute} (ha : P { a with group := g, block := 0 }) : Grows P (addCopy g a) := by
  intro q q' h
  unfold addCopy at h
  split at h
  · cases h
  · cases h
    exact q.extends_insert ha

theorem grows_insertEnd : Grows P (·.insertEnd g) := by
  intro q q' h
  cases g <;> cases h <;> exact q.extends_append _ nofun

end Queue

/-! ## Requests -/

-- What stands for bytes of a tag suits it.
theorem Value.suits_ofBytes (t : ValueTag) (bs : List UInt8) :
    (Value.ofBytes t bs).suits t.family = true := by
  unfold ofBytes
  cases t.family with
  | string => cases Text.ofUtf8? bs <;> rfl
  | integer | boolean | other => rfl

theorem Value.suits_additional (t : ValueTag) (w : ValueTag × List UInt8) :
    (Value.additional t w).suits t.family = true := by
  unfold additional
  split
  · exact suits_ofBytes t w.2
  · rfl

/-- Whatever can be read can be written. -/
theorem Attribute.IsRead.encodable {a : Attribute} (h : a.IsRead) : a.Encodable := by
  obtain ⟨f, -, ha⟩ := h
  rw [ha]
  refine ⟨List.cons_ne_nil _ _, nofun, fun _ v hv => ?_⟩
  rcases List.mem_cons.mp hv with rfl | hv
  · exact Value.suits_ofBytes f.tag f.value
  · obtain ⟨w, -, rfl⟩ := List.mem_map.mp hv
    exact Value.suits_additional f.tag w

end Ipp
