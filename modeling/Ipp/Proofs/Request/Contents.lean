import Ipp.Proofs.Request.Acceptance

/-!
# What a request contains

Whether the request is read to its end or not, every attribute that was read is that of a well-formed
form, and reading touches neither the reply nor the output.
-/

namespace Ipp

open Calls

/-- The attribute is one that a request can contain. -/
def Attribute.IsRead (a : Attribute) : Prop :=
  ∃ f : AttributeForm, f.WellFormed ∧ a = f.toAttribute a.group a.block

theorem Attribute.isRead_toAttribute {f : AttributeForm} (hf : f.WellFormed) (g : Group)
    (block : Nat) : (f.toAttribute g block).IsRead :=
  ⟨f, hf, rfl⟩

-- One more value behind an attribute makes another one.
theorem Attribute.IsRead.extended {a : Attribute} (ha : a.IsRead) {v : ValueTag × List UInt8}
    (hv : (AttributeForm.nameless v).WellFormed) (hfit : v.1 = a.tag → a.tag.Fits v.2) :
    ({ a with values := a.values ++ [.additional a.tag v] } : Attribute).IsRead := by
  rcases ha with ⟨f, hf, ha⟩
  have htag : a.tag = f.tag := congrArg Attribute.tag ha
  rw [htag] at hfit
  refine ⟨{ f with more := f.more ++ [v] }, ⟨?_, hf.named, hf.value, ?_⟩, ?_⟩
  · intro i hi
    rw [AttributeForm.items, List.map_append, ← List.cons_append] at hi
    rcases List.mem_append.mp hi with hi | hi
    · exact hf.items i hi
    · cases List.mem_singleton.mp hi
      exact hv
  · intro w hw
    rcases List.mem_append.mp hw with hw | hw
    · exact hf.more w hw
    · cases List.mem_singleton.mp hw
      exact hfit
  · rw [ha, AttributeForm.toAttribute, AttributeForm.toAttribute, List.map_append, List.cons_append]
    rfl

namespace Reader

/-- Every attribute that the reader holds is one that a request can contain. -/
def Holds (r : Reader) : Prop :=
  ∀ a ∈ r.current.toList ++ r.closed, a.IsRead

theorem holds_of_place {s : Reader} {g : Option Group} {block : Nat} {current : Option Attribute}
    {closed : List Attribute} (hplace : s.place = (g, block, current, closed))
    (h : ∀ a ∈ current.toList ++ closed, a.IsRead) : s.Holds := by
  have hcurrent : s.current = current := congrArg (·.2.2.1) hplace
  have hclosed : s.closed = closed := congrArg (·.2.2.2) hplace
  rw [Holds, hcurrent, hclosed]
  exact h

/-! ## One part -/

theorem Part.holds {r s : Reader} {goesOn : Bool} (h : Part r s goesOn) (hr : r.Holds) : s.Holds := by
  cases h with
  | ending _ hplace => exact holds_of_place hplace hr
  | delimiter g _ hplace => exact holds_of_place hplace hr
  | named i hi hn hfit _ g _ hplace =>
    apply holds_of_place hplace
    intro a ha
    rcases List.mem_cons.mp ha with rfl | ha
    · have hf : (AttributeForm.mk i.tag i.name i.value []).WellFormed := by
        refine ⟨fun j hj => ?_, hn, hfit, nofun⟩
        cases List.mem_singleton.mp hj
        exact hi
      exact Attribute.isRead_toAttribute hf g r.block
    · exact hr a ha
  | nameless v hv _ a ha hfit hplace =>
    rw [Holds, ha] at hr
    apply holds_of_place hplace
    intro b hb
    rcases List.mem_cons.mp hb with rfl | hb
    · exact (hr a List.mem_cons_self).extended hv hfit
    · exact hr b (List.mem_cons_of_mem _ hb)

/-- Only the channel has moved on. -/
structure Stays (r s : Reader) : Prop where
  reads : r.channel.Reads s.channel
  place : s.place = r.place

theorem Stays.trans {r s t : Reader} (h : r.Stays s) (h' : s.Stays t) : r.Stays t :=
  ⟨h.reads.trans h'.reads, h'.place.trans h.place⟩

theorem keeps_onChannel {α : Type} {call : Channel.Action α} (h : Keeps Channel.Reads call) :
    Keeps Stays (onChannel call) := by
  intro r
  rw [onChannel]
  cases hc : call r.channel with
  | ok a c => exact ⟨h.ok hc, rfl⟩
  | error fault c => exact ⟨h.error hc, rfl⟩

theorem keeps_getCounted : Keeps Stays getCounted :=
  (keeps_onChannel Channel.keeps_getUInt16).bind Stays.trans fun n =>
    keeps_onChannel (Channel.keeps_getBytes n.toNat)

theorem failsIn_throw {α : Type} (fault : Fault) : FailsIn Stays (throw fault : Action α) := by
  intro r s e h
  cases h
  exact ⟨.refl _, rfl⟩

theorem failsIn_readNamed (tag : ValueTag) (n : UInt16) : FailsIn Stays (readNamed tag n) := by
  refine (keeps_onChannel (Channel.keeps_getBytes n.toNat)).bind_failsIn Stays.trans fun name => ?_
  refine keeps_getCounted.bind_failsIn Stays.trans fun bytes => ?_
  intro r s e h
  rw [get_bind] at h
  cases hg : r.group with
  | none =>
    simp only [hg] at h
    exact failsIn_throw _ _ _ _ h
  | some g =>
    simp only [hg] at h
    cases hv : Value.decode tag (Text.ofUtf8Lossy name) bytes with
    | ok v =>
      rw [hv] at h
      cases h
    | error fault =>
      rw [hv] at h
      exact failsIn_throw _ _ _ _ h

theorem failsIn_readAdditional (tag : ValueTag) : FailsIn Stays (readAdditional tag) := by
  intro r s e h
  rw [readAdditional, get_bind] at h
  cases ha : r.current with
  | none =>
    simp only [ha] at h
    exact failsIn_throw _ _ _ _ h
  | some a =>
    simp only [ha] at h
    refine Keeps.bind_failsIn (R := Stays) Stays.trans keeps_getCounted (fun bytes => ?_) r s e h
    intro t t' e' h'
    by_cases ht : tag = a.tag
    · rw [if_pos ht] at h'
      cases hv : Value.decode tag a.name bytes with
      | ok v =>
        rw [hv] at h'
        cases h'
      | error fault =>
        rw [hv] at h'
        exact failsIn_throw _ _ _ _ h'
    · rw [if_neg ht] at h'
      by_cases hf : tag.family = a.tag.family
      · rw [if_neg (not_not_intro hf)] at h'
        cases h'
      · rw [if_pos hf] at h'
        cases h'

-- A part that cannot be read adds nothing to what was read before.
theorem failsIn_readPart : FailsIn Stays readPart := by
  rw [readPart_eq]
  refine (keeps_onChannel Channel.keeps_getByte).bind_failsIn Stays.trans fun tag => ?_
  by_cases hend : tag = endOfAttributes
  · intro r s e h
    rw [hend, behindTag_end] at h
    cases h
  by_cases hdel : tag ≤ lastDelimiter
  · intro r s e h
    rw [behindTag, if_neg hend, if_pos hdel] at h
    cases hg : Group.ofDelimiter? tag with
    | none =>
      rw [hg] at h
      exact failsIn_throw _ _ _ _ h
    | some g =>
      rw [hg] at h
      cases h
  · rw [behindTag_item (UInt8.not_le.mp hdel)]
    refine (keeps_onChannel Channel.keeps_getUInt16).bind_failsIn Stays.trans fun n => ?_
    by_cases hzero : n = 0
    · rw [if_pos hzero]
      exact (failsIn_readAdditional ⟨tag⟩).bind_pure true
    · rw [if_neg hzero]
      exact (failsIn_readNamed ⟨tag⟩ n).bind_pure true

/-! ## Whole sections -/

/-- The channel has moved on, and only attributes that a request can contain were added. -/
structure Gathers (r s : Reader) : Prop where
  reads : r.channel.Reads s.channel
  holds : r.Holds → s.Holds

theorem Gathers.trans {r s t : Reader} (h : r.Gathers s) (h' : s.Gathers t) : r.Gathers t :=
  ⟨h.reads.trans h'.reads, h'.holds ∘ h.holds⟩

theorem Stays.gathers {r s : Reader} (h : r.Stays s) : r.Gathers s :=
  ⟨h.reads, holds_of_place h.place⟩

theorem keeps_readPart : Keeps Gathers readPart :=
  keeps_of_cases
    (fun h => ⟨(readPart_ok h).1, (readPart_ok h).2.holds⟩)
    (fun h => (failsIn_readPart _ _ _ h).gathers)

theorem keeps_readWithin (bound : Nat) : Keeps Gathers (readWithin bound) := by
  induction bound with
  | zero => exact keeps_throw (fun r => ⟨.refl _, id⟩) _
  | succ bound ih =>
    refine keeps_readPart.bind Gathers.trans fun goesOn => ?_
    exact keeps_ite ih (keeps_pure (fun r => ⟨.refl _, id⟩) _)

theorem keeps_read : Keeps Gathers read :=
  keeps_get_bind fun r => keeps_readWithin (r.channel.left + 1)

end Reader

/-! ## Exchanges -/

namespace Exchange

/-- Reading has moved on from `e` to `e'`. -/
structure Parses (e e' : Exchange) : Prop where
  reads : e.channel.Reads e'.channel
  request : (∀ a ∈ e.request, a.IsRead) → ∀ a ∈ e'.request, a.IsRead
  rest : e' = { e with
    channel := e'.channel, header := e'.header, request := e'.request, status := e'.status
    log := e'.log }

theorem Parses.refl (e : Exchange) : e.Parses e :=
  ⟨.refl _, id, rfl⟩

theorem Parses.trans {e e' e'' : Exchange} (h : e.Parses e') (h' : e'.Parses e'') :
    e.Parses e'' where
  reads := h.reads.trans h'.reads
  request := h'.request ∘ h.request
  rest := by
    rw [h'.rest, h.rest]

theorem keeps_onChannel {α : Type} {call : Channel.Action α} (h : Keeps Channel.Reads call) :
    Keeps Parses (onChannel call) := by
  intro e
  rw [onChannel]
  cases hc : call e.channel with
  | ok a c => exact ⟨h.ok hc, id, rfl⟩
  | error fault c => exact ⟨h.error hc, id, rfl⟩

theorem keeps_headerFields : Keeps Parses headerFields := by
  have hset {f : Exchange → Header} :
      Keeps Parses (modify fun e => { e with header := f e } : Action Unit) :=
    keeps_modify fun e => ⟨.refl _, id, rfl⟩
  refine (keeps_onChannel Channel.keeps_getByte).bind Parses.trans fun major => ?_
  refine hset.bind Parses.trans fun _ => ?_
  refine (keeps_onChannel Channel.keeps_getByte).bind Parses.trans fun minor => ?_
  refine hset.bind Parses.trans fun _ => ?_
  refine (keeps_onChannel Channel.keeps_getUInt16).bind Parses.trans fun operation => ?_
  refine hset.bind Parses.trans fun _ => ?_
  refine (keeps_onChannel Channel.keeps_getUInt32).bind Parses.trans fun requestId => ?_
  exact hset

theorem keeps_parseHeader : Keeps Parses parseHeader := by
  intro e
  by_cases h : e.DeclaresEnough
  · rw [parseHeader_of_enough h]
    exact keeps_headerFields e
  · obtain ⟨n, -, hfault⟩ := parseHeader_of_not_enough h
    rw [hfault]
    exact .refl e

theorem keeps_parseBody : Keeps Parses parseBody := by
  intro e
  have hread := Reader.keeps_read { channel := e.channel }
  have hrequest : ∀ r : Reader, ({ channel := e.channel } : Reader).Gathers r →
      (∀ a ∈ e.request, a.IsRead) → ∀ a ∈ e.request ++ r.attributes, a.IsRead := by
    intro r hr he a ha
    rcases List.mem_append.mp ha with ha | ha
    · exact he a ha
    · exact hr.holds nofun a (List.mem_reverse.mp ha)
  cases hr : Reader.read { channel := e.channel } with
  | error fault r =>
    rw [hr] at hread
    rw [parseBody, hr]
    exact ⟨hread.reads, hrequest r hread, rfl⟩
  | ok done r =>
    rw [hr] at hread
    obtain ⟨log, hp⟩ := parseBody_of_read hr
    rw [hp]
    exact ⟨hread.reads, hrequest r hread, rfl⟩

theorem keeps_parse : Keeps Parses parse :=
  keeps_parseHeader.bind Parses.trans fun _ => keeps_parseBody

end Exchange
end Ipp
