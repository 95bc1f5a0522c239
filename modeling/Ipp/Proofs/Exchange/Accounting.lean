import Ipp.Proofs.Exchange.Classifying

/-!
# What becomes of the attributes examined

An attribute that classification examines is refused, shown by the accessor of its field, or counted among the
keywords requested; or it is lost, in one of three ways (`classify_accounts`). None of them is meant: what is
not filed away is to be queued as unsupported.
-/

namespace Ipp

open Calls

namespace WellKnown

variable {readDomain : Uri.DomainReader} {caps : Capabilities} {w : WellKnown} {a : Attribute} {f : Field}
  {k : Content.Kind} {v : Value}

-- Only a text may be unreadable, where it is not UTF-8.
theorem read?_eq_none (ha : a.IsRead) (hof : Field.of? caps a = some f) (hk : f.kind? = some k)
    (hv : a.values = [v]) (hrefused : isRefused readDomain caps a = false)
    (hnone : k.read? readDomain v = none) :
    k = .text ∧ ∃ bs, v = .bytes bs := by
  obtain ⟨r, hr, rfl, happlies⟩ := Field.of?_eq_some hof
  obtain ⟨htext, hnumber⟩ := Field.family_of_kind r hr
  rw [← (Field.Rule.key_eq happlies).2.1] at htext hnumber
  obtain ⟨bs, rfl⟩ := ha.only_eq hv
  cases k with
  | uri =>
    have honly : a.only? = some (.ofBytes a.tag bs) := Attribute.only?_eq_some.mpr hv
    simp [isRefused, hof, hk, honly, hnone] at hrefused
  | text =>
    refine ⟨rfl, bs, ?_⟩
    rw [Value.ofBytes, htext hk] at hnone ⊢
    cases h : Text.ofUtf8? bs with
    | none => rfl
    | some s => simp [Content.Kind.read?, Value.string?, h] at hnone
  | number =>
    rw [Value.ofBytes, hnumber hk] at hnone
    cases hnone

/-! ## Places -/

/-- The value of the attribute is what the accessor of its field returns. -/
def Shown (readDomain : Uri.DomainReader) (caps : Capabilities) (w : WellKnown) (a : Attribute) : Prop :=
  ∃ f k v c, Field.of? caps a = some f ∧ f.kind? = some k ∧ a.values = [v] ∧
    k.read? readDomain v = some c ∧ w.content? f = some c

/-- All values of the attribute are keywords that are requested. -/
def Collected (caps : Capabilities) (w : WellKnown) (a : Attribute) : Prop :=
  Field.of? caps a = some .requested ∧ ∀ v ∈ a.values, ∃ s ∈ w.requested, v = .string s

/-- Why an attribute is found nowhere, where `later` are examined behind it. -/
inductive Lost (readDomain : Uri.DomainReader) (caps : Capabilities) (later : List Attribute)
    (a : Attribute) : Prop where
  -- Its text is not UTF-8, and its field is empty instead.
  | undecoded {f : Field} {bs : List UInt8} (hof : Field.of? caps a = some f) (hk : f.kind? = some .text)
      (hvalues : a.values = [.bytes bs])
  -- Another value is filed in its field.
  | replaced {f : Field} {b : Attribute} (hof : Field.of? caps a = some f) (hk : f.kind?.isSome = true)
      (hb : b ∈ later) (hofb : Field.of? caps b = some f) (hrefused : isRefused readDomain caps b = false)
  -- It requests something that is no keyword.
  | unspelled {v : Value} (hof : Field.of? caps a = some .requested) (hv : v ∈ a.values)
      (hnone : v.string? = none)

theorem mem_request {k : String} {keywords : List String} :
    k ∈ (w.request keywords).requested ↔ k ∈ w.requested ∨ k ∈ keywords := by
  unfold request
  dsimp only
  generalize w.requested = before
  induction keywords generalizing before with
  | nil => simp
  | cons k' keywords ih =>
    rw [List.foldl_cons, ih, List.mem_cons]
    split
    · next h =>
      have hk' : k' ∈ before := List.contains_iff_mem.mp h
      constructor
      · rintro (hk | hk)
        · exact .inl hk
        · exact .inr (.inr hk)
      · rintro (hk | rfl | hk)
        · exact .inl hk
        · exact .inl hk'
        · exact .inr hk
    · rw [List.mem_append, List.mem_singleton, or_assoc]

theorem FilesAll.mem_requested {examined : List Attribute} {w' : WellKnown}
    (h : FilesAll readDomain caps w examined w') (ha : a ∈ examined) {s : String} (hs : s ∈ keywords caps a) : s ∈ w'.requested := by
  rw [h.requested, mem_request]
  exact .inr (List.mem_flatMap.mpr ⟨a, ha, hs⟩)

-- What is filed last is shown.
theorem FilesAll.content?_last {before later : List Attribute} {w' : WellKnown}
    (h : FilesAll readDomain caps w (before ++ a :: later) w') {content : Option Content}
    (hfiled : filed? readDomain caps f a = some content)
    (hlater : ∀ b ∈ later, filed? readDomain caps f b = none) :
    w'.content? f = content := by
  have hnone : later.filterMap (filed? readDomain caps f) = [] := List.filterMap_eq_nil_iff.mpr hlater
  rw [h.content, List.filterMap_append, List.filterMap_cons, hfiled, hnone, List.getLast?_concat]
  rfl

theorem collected_or_lost {examined later : List Attribute} {w' : WellKnown}
    (h : FilesAll readDomain caps w examined w') (ha : a ∈ examined)
    (hof : Field.of? caps a = some .requested) :
    Collected caps w' a ∨ Lost readDomain caps later a := by
  by_cases hnone : ∃ v ∈ a.values, v.string? = none
  · obtain ⟨v, hv, hnone⟩ := hnone
    exact .inr (.unspelled hof hv hnone)
  refine .inl ⟨hof, fun v hv => ?_⟩
  cases v with
  | string s =>
    refine ⟨s, h.mem_requested ha ?_, rfl⟩
    rw [keywords, if_pos hof]
    exact List.mem_filterMap.mpr ⟨.string s, hv, rfl⟩
  | _ => exact absurd ⟨_, hv, rfl⟩ hnone

-- The attribute is filed, and shown unless another one is filed behind it.
theorem shown_or_lost {before later : List Attribute} {w' : WellKnown}
    (h : FilesAll readDomain caps w (before ++ a :: later) w') (ha : a.IsRead)
    (hof : Field.of? caps a = some f) (hk : f.kind? = some k) (hrefused : isRefused readDomain caps a = false) :
    Shown readDomain caps w' a ∨ Lost readDomain caps later a := by
  obtain ⟨v, honly⟩ : ∃ v, a.only? = some v := by
    cases honly : a.only? with
    | none => simp [isRefused, hof, hk, honly] at hrefused
    | some v => exact ⟨v, rfl⟩
  have hv : a.values = [v] := Attribute.only?_eq_some.mp honly
  have hfiled : filed? readDomain caps f a = some (k.read? readDomain v) := by
    simp [filed?, hof, hrefused, hk, honly]
  by_cases hlater : ∃ b ∈ later, Field.of? caps b = some f ∧ isRefused readDomain caps b = false
  · obtain ⟨b, hb, hofb, hrefusedb⟩ := hlater
    exact .inr (.replaced hof (by rw [hk]; rfl) hb hofb hrefusedb)
  have hshown := h.content?_last hfiled fun b hb => if_neg fun hb' => hlater ⟨b, hb, hb'⟩
  cases hread : k.read? readDomain v with
  | some c => exact .inl ⟨f, k, v, c, hof, hk, hv, hread, by rw [hshown, hread]⟩
  | none =>
    obtain ⟨rfl, bs, rfl⟩ := read?_eq_none ha hof hk hv hrefused hread
    exact .inr (.undecoded hof hk hv)

/-- Of the attributes that are examined, those that classification refuses are queued as unsupported, each
once and in order; any other is ignored as the charset and the language are, is shown or collected, or is
lost. Those that are not examined stay in the request, in order. -/
theorem classify_accounts (config : Config) (source : Source) (sink : Sink) (declared : Option Nat)
    (readDomain : Uri.DomainReader) {e : Exchange}
    (hparse : Exchange.parse (.opened config source sink declared readDomain) = .ok () e)
    (caps : Capabilities) :
    (classify caps e).2.request = e.request.filter (!isExamined caps ·) ∧
    (classify caps e).2.queue.attributes .unsupported =
      ((examined caps e).filter (isRefused readDomain caps)).map Attribute.unsupported ∧
    ∀ before a later, examined caps e = before ++ a :: later → isRefused readDomain caps a = false →
      Field.of? caps a = some .ignored ∨ Shown readDomain caps (classify caps e).1 a ∨
        Collected caps (classify caps e).1 a ∨ Lost readDomain caps later a := by
  have hparses := Exchange.keeps_parse.ok hparse
  obtain rfl : e.readDomain = readDomain := by
    rw [hparses.rest]
    rfl
  have hqueue : e.queue.attributes .unsupported = [] := by
    rw [hparses.rest]
    rfl
  obtain ⟨hfiles, hrest⟩ := classify_files caps e
  refine ⟨by rw [hrest], ?_, ?_⟩
  · rw [hrest]
    show (e.queue.refuse _).attributes .unsupported = _
    rw [Queue.attributes_refuse, hqueue, if_pos rfl, List.nil_append]
  intro before a later hsplit hrefused
  have hmem : a ∈ examined caps e := by
    rw [hsplit]
    exact List.mem_append_right before List.mem_cons_self
  have hread : a.IsRead := hparses.request nofun a (List.mem_filter.mp hmem).1
  cases hof : Field.of? caps a with
  | none => simp [isRefused, hof] at hrefused
  | some f =>
    cases hk : f.kind? with
    | none =>
      cases f with
      | ignored => exact .inl rfl
      | requested => exact .inr (.inr (collected_or_lost hfiles hmem hof))
      | _ => cases hk
    | some k =>
      rw [hsplit] at hfiles
      rcases shown_or_lost hfiles hread hof hk hrefused with hshown | hlost
      · exact .inr (.inl hshown)
      · exact .inr (.inr (.inr hlost))

/-- A request that names a printer by a byte that is not UTF-8, and a job. -/
def misnamed : RequestForm :=
  { header := { major := 1, minor := 1, operation := 11, requestId := 7 }
    groups :=
      [⟨.operation,
        [⟨.name, Text.utf8 "printer-name", [255], []⟩,
         ⟨.integer, Text.utf8 "job-id", [0, 0, 0, 5], []⟩]⟩,
       ⟨.job, [⟨.keyword, Text.utf8 "copies", [], []⟩]⟩] }

def misnamedStart : Exchange :=
  final (Exchange.parse (.opened {} { rest := misnamed.bytes } {} none))

def misnamedName : Attribute :=
  { name := "printer-name", group := .operation, tag := .name, values := [.bytes [255]], block := 1 }

theorem misnamed_parses :
    Exchange.parse (.opened {} { rest := misnamed.bytes } {} none) = .ok () misnamedStart := by
  have hreadable : succeeded (Exchange.parse (.opened {} { rest := misnamed.bytes } {} none)) = true := by
    decide +kernel
  exact eq_ok_of_succeeded hreadable

-- For an operation on a printer the name is accepted, and its field stays empty.
theorem misnamed_classified :
    (classify { printer := true } misnamedStart).1 = {} ∧
      Field.of? { printer := true } misnamedName = some .printerName := by
  decide +kernel

theorem not_shown_of_empty : ¬Shown readDomain caps {} a := by
  rintro ⟨f, k, v, c, -, -, -, -, hcontent⟩
  cases f <;> cases hcontent

theorem not_collected_misnamed : ¬Collected { printer := true } w misnamedName := by
  rintro ⟨hof, -⟩
  rw [misnamed_classified.2] at hof
  cases hof

theorem misnamed_accounts :
    (classify { printer := true } misnamedStart).2.request.map (·.name) = ["copies"] ∧
    ((classify { printer := true } misnamedStart).2.queue.attributes .unsupported).map (·.name) =
      ["job-id"] ∧
    ∃ later, examined { printer := true } misnamedStart = misnamedName :: later ∧
      Lost Uri.asciiDomain { printer := true } later misnamedName := by
  obtain ⟨hrequest, hunsupported, hplaces⟩ :=
    classify_accounts {} { rest := misnamed.bytes } {} none Uri.asciiDomain misnamed_parses { printer := true }
  have hfirst : examined { printer := true } misnamedStart =
      [] ++ misnamedName :: (examined { printer := true } misnamedStart).tail := by
    decide +kernel
  refine ⟨?_, ?_, _, hfirst, ?_⟩
  · rw [hrequest]
    decide +kernel
  · rw [hunsupported]
    decide +kernel
  · have hplace := hplaces [] misnamedName _ hfirst (by decide +kernel)
    rw [misnamed_classified.1, misnamed_classified.2] at hplace
    rcases hplace with hignored | hshown | hcollected | hlost
    · cases hignored
    · exact absurd hshown not_shown_of_empty
    · exact absurd hcollected not_collected_misnamed
    · exact hlost

/-- Every attribute that is examined, but for the charset and the language, is shown, collected or queued as
unsupported. -/
def LosesNothing (caps : Capabilities) (e : Exchange) : Prop :=
  ∀ a ∈ examined caps e, Field.of? caps a ≠ some .ignored →
    Shown e.readDomain caps (classify caps e).1 a ∨ Collected caps (classify caps e).1 a ∨
      a.unsupported ∈ (classify caps e).2.queue.attributes .unsupported

/-- The name is neither shown nor sent back. -/
theorem misnamed_loses_name :
    Exchange.parse (.opened {} { rest := misnamed.bytes } {} none) = .ok () misnamedStart ∧
      ¬LosesNothing { printer := true } misnamedStart := by
  refine ⟨misnamed_parses, fun h => ?_⟩
  have hexamined : misnamedName ∈ examined { printer := true } misnamedStart := by decide +kernel
  have hnone : misnamedName.unsupported ∉
      (classify { printer := true } misnamedStart).2.queue.attributes .unsupported := by
    decide +kernel
  have hplace := h misnamedName hexamined (by rw [misnamed_classified.2]; decide)
  rw [misnamed_classified.1] at hplace
  rcases hplace with hshown | hcollected | hqueued
  · exact not_shown_of_empty hshown
  · exact not_collected_misnamed hcollected
  · exact hnone hqueued

end WellKnown
end Ipp
