import Ipp.Proofs.Exchange.Classifying

/-!
# Classification claim by claim

The well-known attributes can also be taken with one claim for each key that the operation understands, and
what is left to be examined demoted in the end. Where every text is UTF-8 and no key comes twice this gives
the same as the one pass of `classify`, though attributes are refused in another order (`classify_agrees`).
-/

namespace Ipp

open Exchange Calls

namespace WellKnown

/-! ## The claims -/

/-- A claim that is made only where the operation understands the attribute. -/
def claimIf {α : Type} (understood : Bool) (call : Query (Option α)) : Query (Option α) :=
  if understood then call else pure none

/-- Takes the number of a single-valued attribute. -/
def claimNumber (group : Group) (name : String) : Query (Option Int32) := do
  let found ← claimSingle group .integer name
  return found.bind fun a => a.values.head?.bind Value.integer?

/-- Demotes what is left to be examined. -/
def demoteExamined (caps : Capabilities) : Query Unit :=
  modify fun e =>
    (e.request.filter (isExamined caps)).foldl demote
      { e with request := e.request.filter (!isExamined caps ·) }

/-- Takes the well-known attributes one by one. -/
def claimAll (caps : Capabilities) : Query WellKnown := do
  let _ ← claim .operation .charset "attributes-charset"
  let _ ← claim .operation .naturalLanguage "attributes-natural-language"
  let keywords ← claim .operation .keyword "requested-attributes"
  let printerUri ← claimIf (caps.intersects { printer := true, job := true })
    (claimUri .operation "printer-uri")
  let printerName ← claimIf (caps.intersects { printer := true })
    (claimString .operation .name "printer-name")
  let jobUri ← claimIf (caps.intersects { job := true }) (claimUri .operation "job-uri")
  let jobId ← claimIf (caps.intersects { job := true }) (claimNumber .operation "job-id")
  let deviceClass ← claimIf (caps.intersects { devices := true })
    (claimString .operation .keyword "device-class")
  let ppdMake ← claimIf (caps.intersects { ppds := true }) (claimString .operation .text "ppd-make")
  let limit ← claimIf (caps.intersects { printers := true, jobs := true, devices := true, ppds := true })
    (claimNumber .operation "limit")
  let deviceUri ← claimIf (caps.intersects { pcreate := true }) (claimString .printer .uri "device-uri")
  let ppdName ← claimIf (caps.intersects { pcreate := true }) (claimString .printer .name "ppd-name")
  demoteExamined caps
  let w : WellKnown :=
    { printerUri, printerName, jobUri, jobId, deviceClass, ppdMake, limit, deviceUri, ppdName }
  return w.request (keywords.toList.flatMap fun a => a.values.filterMap Value.string?)

/-! ## One key -/

/-- At most one of the attributes has the key. -/
def Sole (key : Attribute → Bool) (request : List Attribute) : Prop :=
  (request.filter key).length ≤ 1

section Sole

variable {key : Attribute → Bool} {request : List Attribute}

-- Then the first of its key is all there is of it.
theorem Sole.filter_eq (h : Sole key request) : request.filter key = (request.find? key).toList := by
  rw [← List.head?_filter]
  unfold Sole at h
  generalize request.filter key = found at h ⊢
  cases found with
  | nil => rfl
  | cons a found =>
    have hnil : found = [] := List.length_eq_zero_iff.mp (by rw [List.length_cons] at h; omega)
    rw [hnil]
    rfl

theorem Sole.eraseP_eq (h : Sole key request) : request.eraseP key = request.filter (!key ·) := by
  induction request with
  | nil => rfl
  | cons a request ih =>
    unfold Sole at h
    by_cases ha : key a = true
    · rw [List.filter_cons_of_pos ha, List.length_cons] at h
      have hnone : request.filter key = [] := List.length_eq_zero_iff.mp (by omega)
      have hself : request.filter (!key ·) = request :=
        List.filter_eq_self.mpr fun b hb => by simpa using List.filter_eq_nil_iff.mp hnone b hb
      rw [List.eraseP_cons_of_pos ha, List.filter_cons_of_neg (by simp [ha]), hself]
    · rw [List.filter_cons_of_neg ha] at h
      rw [List.eraseP_cons_of_neg ha, List.filter_cons_of_pos (by simp [ha]), ih h]

theorem Sole.sublist (h : Sole key request) {kept : List Attribute} (hk : kept.Sublist request) :
    Sole key kept :=
  Nat.le_trans (hk.filter key).length_le h

-- What is made of the attributes of a key is made of the first.
theorem Sole.flatMap_eq {α : Type} (h : Sole key request) {f : Attribute → List α}
    (hf : ∀ a, key a = false → f a = []) : request.flatMap f = (request.find? key).toList.flatMap f := by
  rw [← h.filter_eq]
  clear h
  induction request with
  | nil => rfl
  | cons a request ih =>
    rw [List.flatMap_cons, List.filter_cons]
    split
    · rw [List.flatMap_cons, ih]
    · next ha => rw [hf a (eq_false_of_ne_true ha), List.nil_append, ih]

end Sole

/-- Where domains are read in this way, the claim hands out what `pick` makes of the first attribute of a key,
and takes it. -/
structure Claims {α : Type} (readDomain : Uri.DomainReader) (key accepts : Attribute → Bool)
    (pick : Attribute → Option α) (call : Query (Option α)) : Prop where
  found : ∀ e : Exchange, e.readDomain = readDomain → (call e).1 = (e.request.find? key).bind pick
  takes : ∀ e : Exchange, e.readDomain = readDomain → e.Takes key accepts (call e).2

section Claims

variable {α : Type} {readDomain : Uri.DomainReader} {key accepts : Attribute → Bool}
  {pick : Attribute → Option α} {call : Query (Option α)}

theorem claims_claim (g : Group) (t : ValueTag) (n : String) :
    Claims readDomain (·.isFor g t n) (fun _ => true) some (claim g t n) where
  found e _ := (claim_takes g t n e).1.trans (by simp [Exchange.find?])
  takes e _ := (claim_takes g t n e).2

theorem claims_uri (g : Group) (n : String) :
    Claims readDomain (·.isFor g .uri n) (isUsable (uri? readDomain)) (·.only?.bind (uri? readDomain))
      (claimUri g n) where
  found := by
    rintro e rfl
    exact (claimUri_takes g n e).1
  takes := by
    rintro e rfl
    exact (claimUri_takes g n e).2

theorem claims_string (g : Group) (t : ValueTag) (n : String) :
    Claims readDomain (·.isFor g t n) (isUsable Value.string?) (·.only?.bind Value.string?)
      (claimString g t n) where
  found e _ := (claimValue_takes g t n e Value.string?).1
  takes e _ := (claimValue_takes g t n e Value.string?).2

theorem claims_number (g : Group) (n : String) :
    Claims readDomain (·.isFor g .integer n) Attribute.isSingle (·.only?.bind Value.integer?)
      (claimNumber g n) where
  found e _ := by
    show (claimSingle g .integer n e).1.bind _ = _
    rw [(claimSingle_takes g .integer n e).1]
    show ((e.request.find? _).filter Attribute.isSingle).bind _ = _
    cases e.request.find? (·.isFor g .integer n) with
    | none => rfl
    | some a =>
      cases ha : a.isSingle with
      | true => rw [Option.filter_some_pos ha, Option.bind_some, Option.bind_some, only?_of_isSingle ha]
      | false =>
        rw [Option.filter_some_neg (by rw [ha]), Option.bind_some, only?_of_several ha]
        rfl
  takes e _ := (claimSingle_takes g .integer n e).2

-- Where the key is not understood no attribute has it.
theorem Claims.claimIf (h : Claims readDomain key accepts pick call) (understood : Bool) :
    Claims readDomain (fun a => key a && understood) accepts pick (claimIf understood call) := by
  cases understood with
  | true =>
    have hkey : (fun a => key a && true) = key := by simp
    rw [hkey]
    exact h
  | false =>
    have hnone (request : List Attribute) : request.find? (fun a => key a && false) = none := by simp
    refine ⟨fun e _ => ?_, fun e _ => takes_none (hnone e.request)⟩
    rw [hnone]
    rfl

end Claims

/-! ## All keys -/

/-- Whether a claim of the kind accepts an attribute. A number is read off any single value. -/
def kindAccepts (readDomain : Uri.DomainReader) : Content.Kind → Attribute → Bool
  | .uri => isUsable (uri? readDomain)
  | .text => isUsable Value.string?
  | .number => Attribute.isSingle

-- What is not kept in a field is always accepted.
def accepts (readDomain : Uri.DomainReader) (f : Field) (a : Attribute) : Bool :=
  f.kind?.all (kindAccepts readDomain · a)

/-- The attributes that the claims for these rules leave, where none of their keys comes twice. -/
def leftBy (caps : Capabilities) (rules : List Field.Rule) (request : List Attribute) : List Attribute :=
  request.filter fun a => !rules.any (·.applies caps a)

/-- The attributes that the claims for these rules refuse. -/
def refusedBy (readDomain : Uri.DomainReader) (caps : Capabilities) (rules : List Field.Rule)
    (request : List Attribute) : List Attribute :=
  rules.flatMap fun r => refusedOf (accepts readDomain r.field) (request.find? (r.applies caps))

/-- `e'` is reached from `e` by the claims for all rules but those in `todo`. -/
structure Progress (caps : Capabilities) (e : Exchange) (done todo : List Field.Rule) (e' : Exchange) :
    Prop where
  rules : done ++ todo = Field.rules
  request : e'.request = leftBy caps done e.request
  queue : e'.queue = e.queue.refuse (refusedBy e.readDomain caps done e.request)
  reader : e'.readDomain = e.readDomain

theorem progress_start (caps : Capabilities) (e : Exchange) : Progress caps e [] Field.rules e where
  rules := rfl
  request := (List.filter_eq_self.mpr fun _ _ => rfl).symm
  queue := rfl
  reader := rfl

variable {readDomain : Uri.DomainReader} {caps : Capabilities} {e e' : Exchange}
  {done todo : List Field.Rule} {r : Field.Rule}

theorem Progress.any_eq_false (h : Progress caps e done (r :: todo) e') {a : Attribute}
    (ha : r.applies caps a = true) : done.any (·.applies caps a) = false := by
  rw [List.any_eq_false]
  intro r' hr' ha'
  have hnames := Field.nodup_names
  rw [← h.rules, List.map_append, List.map_cons] at hnames
  have hmem : a.name ∈ done.map (·.name) := by
    rw [(Field.Rule.key_eq ha').2.2]
    exact List.mem_map_of_mem hr'
  exact (List.nodup_append.mp hnames).2.2 _ hmem _ List.mem_cons_self (Field.Rule.key_eq ha).2.2

theorem Progress.find?_eq (h : Progress caps e done (r :: todo) e') :
    e'.request.find? (r.applies caps) = e.request.find? (r.applies caps) := by
  rw [h.request, leftBy, List.find?_filter]
  congr 1
  funext a
  cases ha : r.applies caps a with
  | false => simp
  | true => simp [h.any_eq_false ha]

/-- One more claim. -/
theorem Progress.step {α : Type} {pick : Attribute → Option α} {call : Query (Option α)}
    (h : Progress caps e done (r :: todo) e') (hsole : Sole (r.applies caps) e.request)
    (hcall : Claims e.readDomain (r.applies caps) (accepts e.readDomain r.field) pick call) :
    (call e').1 = (e.request.find? (r.applies caps)).bind pick ∧
      Progress caps e (done ++ [r]) todo (call e').2 := by
  have htakes := hcall.takes e' h.reader
  have hsole' : Sole (r.applies caps) e'.request := by
    rw [h.request]
    exact hsole.sublist List.filter_sublist
  refine ⟨by rw [hcall.found e' h.reader, h.find?_eq], ?_, ?_, ?_, ?_⟩
  · rw [← h.rules, List.append_assoc, List.singleton_append]
  · rw [htakes.request, hsole'.eraseP_eq, h.request, leftBy, leftBy, List.filter_filter]
    congr 1
    funext a
    rw [List.any_append, List.any_cons, List.any_nil, Bool.or_false, Bool.not_or, Bool.and_comm]
  · rw [htakes.queue, h.find?_eq, h.queue, ← Queue.refuse_append]
    congr 1
    rw [refusedBy, refusedBy, List.flatMap_append, List.flatMap_singleton]
  · rw [htakes.rest]
    exact h.reader

theorem Progress.bind {α : Type} {β : Type} {P : β × Exchange → Prop} {pick : Attribute → Option α}
    {call : Query (Option α)} {f : Option α → Query β} (h : Progress caps e done (r :: todo) e')
    (hsole : ∀ r ∈ Field.rules, Sole (r.applies caps) e.request)
    (hcall : Claims e.readDomain (r.applies caps) (accepts e.readDomain r.field) pick call)
    (hrest : ∀ e'', Progress caps e (done ++ [r]) todo e'' →
      P (f ((e.request.find? (r.applies caps)).bind pick) e'')) : P ((call >>= f) e') := by
  have hr : r ∈ Field.rules := by
    rw [← h.rules]
    exact List.mem_append_right done List.mem_cons_self
  obtain ⟨hfound, hprogress⟩ := h.step (hsole r hr) hcall
  have hnext := hrest _ hprogress
  rw [← hfound] at hnext
  exact hnext

-- What is left is examined in the end.
theorem Progress.demoteExamined (h : Progress caps e done [] e') :
    (demoteExamined caps e').2.request =
        (leftBy caps Field.rules e.request).filter (!isExamined caps ·) ∧
      (demoteExamined caps e').2.queue = e.queue.refuse (refusedBy e.readDomain caps Field.rules e.request ++
        (leftBy caps Field.rules e.request).filter (isExamined caps)) := by
  have hrules : done = Field.rules := by rw [← h.rules, List.append_nil]
  have hdemoted : (WellKnown.demoteExamined caps e').2 = { e' with
      request := e'.request.filter (!isExamined caps ·)
      queue := e'.queue.refuse (e'.request.filter (isExamined caps)) } :=
    foldl_demote _ _
  rw [hdemoted]
  dsimp only
  rw [h.request, h.queue, hrules, Queue.refuse_append]
  exact ⟨rfl, rfl⟩

theorem map_pick {α : Type} (found : Option Attribute) (use : Value → Option α)
    (content : α → Content) : (found.bind (·.only?.bind use)).map content =
      found.bind (·.only?.bind fun v => (use v).map content) := by
  cases found with
  | none => rfl
  | some a => cases h : a.only? <;> simp [h]

/-- What the claims hand out and leave behind. -/
structure Taken (caps : Capabilities) (e : Exchange) (result : WellKnown × Exchange) : Prop where
  content : ∀ r ∈ Field.rules, ∀ k, r.field.kind? = some k →
    result.1.content? r.field =
      (e.request.find? (r.applies caps)).bind (·.only?.bind (k.read? e.readDomain))
  requested : ∀ r ∈ Field.rules, r.field = .requested → result.1.requested =
    (({} : WellKnown).request ((e.request.find? (r.applies caps)).toList.flatMap
      (·.values.filterMap Value.string?))).requested
  asked : result.1.asked = []
  request : result.2.request = (leftBy caps Field.rules e.request).filter (!isExamined caps ·)
  queue : result.2.queue = e.queue.refuse (refusedBy e.readDomain caps Field.rules e.request ++
    (leftBy caps Field.rules e.request).filter (isExamined caps))

theorem claimAll_taken (hsole : ∀ r ∈ Field.rules, Sole (r.applies caps) e.request) :
    Taken caps e (claimAll caps e) := by
  unfold claimAll
  -- One claim for each rule, in the order of the rules.
  refine (progress_start caps e).bind hsole ((claims_claim _ _ _).claimIf true) fun _ h => ?_
  refine h.bind hsole ((claims_claim _ _ _).claimIf true) fun _ h => ?_
  refine h.bind hsole ((claims_claim _ _ _).claimIf true) fun _ h => ?_
  refine h.bind hsole ((claims_uri _ _).claimIf _) fun _ h => ?_
  refine h.bind hsole ((claims_string _ _ _).claimIf _) fun _ h => ?_
  refine h.bind hsole ((claims_uri _ _).claimIf _) fun _ h => ?_
  refine h.bind hsole ((claims_number _ _).claimIf _) fun _ h => ?_
  refine h.bind hsole ((claims_string _ _ _).claimIf _) fun _ h => ?_
  refine h.bind hsole ((claims_string _ _ _).claimIf _) fun _ h => ?_
  refine h.bind hsole ((claims_number _ _).claimIf _) fun _ h => ?_
  refine h.bind hsole ((claims_string _ _ _).claimIf _) fun _ h => ?_
  refine h.bind hsole ((claims_string _ _ _).claimIf _) fun _ h => ?_
  obtain ⟨hrequest, hqueue⟩ := h.demoteExamined
  refine ⟨?_, ?_, rfl, hrequest, hqueue⟩
  · intro r hr k hk
    simp only [Field.rules, List.mem_cons, List.not_mem_nil, or_false] at hr
    rcases hr with rfl | rfl | rfl | rfl | rfl | rfl | rfl | rfl | rfl | rfl | rfl | rfl <;>
      cases hk <;> exact map_pick _ _ _
  · intro r hr hf
    simp only [Field.rules, List.mem_cons, List.not_mem_nil, or_false] at hr
    rcases hr with rfl | rfl | rfl | rfl | rfl | rfl | rfl | rfl | rfl | rfl | rfl | rfl <;> cases hf
    rw [Option.bind_fun_some]
    rfl

/-! ## Keys that come once -/

theorem find?_examined (hr : r ∈ Field.rules) (e : Exchange) :
    (examined caps e).find? (r.applies caps) = e.request.find? (r.applies caps) := by
  rw [examined, List.find?_filter]
  congr 1
  funext a
  cases ha : r.applies caps a with
  | false => simp
  | true => simp [Field.Rule.isExamined hr ha]

/-- No two attributes have the same group, tag and name. -/
def Distinct (request : List Attribute) : Prop :=
  request.Pairwise fun a b => ¬(a.group = b.group ∧ a.tag = b.tag ∧ a.name = b.name)

instance (request : List Attribute) : Decidable (Distinct request) :=
  inferInstanceAs (Decidable (request.Pairwise _))

theorem Distinct.sole (h : Distinct (examined caps e)) (hr : r ∈ Field.rules) :
    Sole (r.applies caps) e.request := by
  have hfilter : e.request.filter (r.applies caps) = (examined caps e).filter (r.applies caps) := by
    rw [examined, List.filter_filter]
    congr 1
    funext a
    cases ha : r.applies caps a with
    | false => rfl
    | true => rw [Field.Rule.isExamined hr ha, Bool.and_true]
  have hkey : ∀ a ∈ (examined caps e).filter (r.applies caps), r.applies caps a = true :=
    fun a ha => (List.mem_filter.mp ha).2
  have hpairwise := List.Pairwise.filter (r.applies caps) h
  unfold Sole
  rw [hfilter]
  match hlist : (examined caps e).filter (r.applies caps) with
  | [] => exact Nat.zero_le 1
  | [a] => exact Nat.le_refl 1
  | a :: b :: more =>
    rw [hlist] at hkey hpairwise
    obtain ⟨hgroup, htag, hname⟩ := Field.Rule.key_eq (hkey a List.mem_cons_self)
    have hb : b ∈ a :: b :: more := List.mem_cons_of_mem a List.mem_cons_self
    obtain ⟨hgroup', htag', hname'⟩ := Field.Rule.key_eq (hkey b hb)
    have hdiffer := List.rel_of_pairwise_cons hpairwise List.mem_cons_self
    exact absurd ⟨hgroup.trans hgroup'.symm, htag.trans htag'.symm, hname.trans hname'.symm⟩ hdiffer

/-! ## What is refused -/

-- What is kept by one of two tests that exclude each other.
theorem perm_filter_or {p q : Attribute → Bool} (h : ∀ a, p a = true → q a = false)
    (request : List Attribute) :
    (request.filter p ++ request.filter q).Perm (request.filter fun a => p a || q a) := by
  induction request with
  | nil => exact .refl []
  | cons a request ih =>
    cases hp : p a with
    | true =>
      have hq := h a hp
      simp only [List.filter_cons, hp, hq, Bool.true_or, if_true, List.cons_append]
      exact ih.cons a
    | false =>
      cases hq : q a with
      | true =>
        simp only [List.filter_cons, hp, hq, Bool.false_or, if_true]
        exact List.perm_middle.trans (ih.cons a)
      | false =>
        simp only [List.filter_cons, hp, hq, Bool.false_or]
        exact ih

/-- Whether a claim for one of the rules refuses the attribute. -/
def refuses (readDomain : Uri.DomainReader) (caps : Capabilities) (rules : List Field.Rule)
    (a : Attribute) : Bool :=
  rules.any fun r => r.applies caps a && !accepts readDomain r.field a

theorem perm_refusedBy {rules : List Field.Rule} (hrules : (rules.map (·.name)).Nodup)
    {request : List Attribute} (hsole : ∀ r ∈ rules, Sole (r.applies caps) request) :
    (refusedBy readDomain caps rules request).Perm (request.filter (refuses readDomain caps rules)) := by
  induction rules with
  | nil => simp [refusedBy, refuses]
  | cons r rules ih =>
    rw [List.map_cons, List.nodup_cons] at hrules
    have hfirst : refusedOf (accepts readDomain r.field) (request.find? (r.applies caps)) =
        request.filter fun a => r.applies caps a && !accepts readDomain r.field a := by
      rw [refusedOf, Option.toList_filter, ← (hsole r List.mem_cons_self).filter_eq, List.filter_filter]
      congr 1
      funext a
      exact Bool.and_comm _ _
    have hrest := ih hrules.2 fun r' hr' => hsole r' (List.mem_cons_of_mem r hr')
    have hcons : refusedBy readDomain caps (r :: rules) request =
        refusedOf (accepts readDomain r.field) (request.find? (r.applies caps)) ++
          refusedBy readDomain caps rules request :=
      rfl
    rw [hcons, hfirst]
    refine (hrest.append_left _).trans (perm_filter_or (fun a ha => ?_) request)
    -- Another rule would have the same name.
    rw [Bool.and_eq_true] at ha
    rw [refuses, List.any_eq_false]
    intro r' hr' ha'
    rw [Bool.and_eq_true] at ha'
    have hname : r'.name = r.name := (Field.Rule.key_eq ha'.1).2.2.symm.trans (Field.Rule.key_eq ha.1).2.2
    exact hrules.1 (hname ▸ List.mem_map_of_mem hr')

def isRaw : Value → Bool
  | .bytes _ => true
  | _ => false

/-- Where the values of the attribute should be texts, none was left as bytes. -/
def Decoded (a : Attribute) : Prop :=
  a.tag.family = .string → ∀ v ∈ a.values, isRaw v = false

instance (a : Attribute) : Decidable (Decoded a) :=
  inferInstanceAs (Decidable (a.tag.family = .string → ∀ v ∈ a.values, isRaw v = false))

theorem exists_string {a : Attribute} (ha : a.IsRead) (hdecoded : Decoded a) (hr : r ∈ Field.rules)
    (happlies : r.applies caps a = true) (hk : r.field.kind? = some .text) {v : Value}
    (hv : a.values = [v]) : ∃ s, v = .string s := by
  have hfamily := (Field.family_of_kind r hr).1 hk
  rw [← (Field.Rule.key_eq happlies).2.1] at hfamily
  obtain ⟨bs, rfl⟩ := ha.only_eq hv
  have hnot := hdecoded hfamily
  rw [hv] at hnot
  have hraw := hnot _ List.mem_cons_self
  unfold Value.ofBytes at hraw ⊢
  rw [hfamily] at hraw ⊢
  cases h : Text.ofUtf8? bs with
  | some s => exact ⟨s, rfl⟩
  | none =>
    rw [h] at hraw
    cases hraw

-- A claim accepts what classification files, if it is text where it should be.
theorem isRefused_eq {a : Attribute} (ha : a.IsRead) (hdecoded : Decoded a) (hr : r ∈ Field.rules)
    (happlies : r.applies caps a = true) : isRefused readDomain caps a = !accepts readDomain r.field a := by
  have hof := Field.Rule.of?_eq hr happlies
  cases hk : r.field.kind? with
  | none => simp [isRefused, hof, accepts, hk]
  | some k =>
    rw [isRefused_of_field hof hk, accepts, hk, Option.all_some]
    cases k with
    | uri =>
      rw [kindAccepts, isUsable]
      cases a.only? with
      | none => rfl
      | some v =>
        show ((uri? readDomain v).map Content.uri).isNone = !(uri? readDomain v).isSome
        cases uri? readDomain v <;> rfl
    | text =>
      rw [kindAccepts, isUsable]
      cases honly : a.only? with
      | none => rfl
      | some v =>
        obtain ⟨s, rfl⟩ := exists_string ha hdecoded hr happlies hk (Attribute.only?_eq_some.mp honly)
        rfl
    | number =>
      rw [kindAccepts]
      cases hsingle : a.isSingle with
      | false =>
        rw [only?_of_several hsingle]
        rfl
      | true =>
        obtain ⟨v, hv⟩ := List.length_eq_one_iff.mp (beq_iff_eq.mp hsingle)
        rw [Attribute.only?_eq_some.mpr hv]
        rfl

theorem refuses_eq {a : Attribute} (hr : r ∈ Field.rules) (happlies : r.applies caps a = true) :
    refuses readDomain caps Field.rules a = !accepts readDomain r.field a := by
  rw [Bool.eq_iff_iff, refuses, List.any_eq_true]
  constructor
  · rintro ⟨r', hr', ha'⟩
    rw [Bool.and_eq_true] at ha'
    rw [Field.Rule.eq_of_applies hr hr' happlies ha'.1]
    exact ha'.2
  · intro ha
    exact ⟨r, hr, by rw [happlies, ha]; rfl⟩

-- What has no key is refused by both, and everything else by its claim or not.
theorem refused_iff {a : Attribute} (ha : a.IsRead) (hdecoded : isExamined caps a = true → Decoded a) :
    (refuses readDomain caps Field.rules a ||
        (isExamined caps a && !Field.rules.any (·.applies caps a))) =
      (isRefused readDomain caps a && isExamined caps a) := by
  cases hany : Field.rules.any (·.applies caps a) with
  | true =>
    obtain ⟨r, hr, happlies⟩ := List.any_eq_true.mp hany
    have hexamined := Field.Rule.isExamined hr happlies
    rw [hexamined, refuses_eq hr happlies, isRefused_eq ha (hdecoded hexamined) hr happlies]
    simp
  | false =>
    have hnone := List.any_eq_false.mp hany
    have hrefuses : refuses readDomain caps Field.rules a = false :=
      List.any_eq_false.mpr fun r hr h => hnone r hr (Bool.and_eq_true_iff.mp h).1
    have hrefused : isRefused readDomain caps a = true := by
      have hof : Field.of? caps a = none := by rw [Field.of?, List.find?_eq_none.mpr hnone]; rfl
      simp only [isRefused, hof]
    simp [hrefuses, hrefused]

theorem perm_refused (hread : ∀ a ∈ e.request, a.IsRead) (hdecoded : ∀ a ∈ examined caps e, Decoded a)
    (hsole : ∀ r ∈ Field.rules, Sole (r.applies caps) e.request) :
    (refusedBy e.readDomain caps Field.rules e.request ++
        (leftBy caps Field.rules e.request).filter (isExamined caps)).Perm
      ((examined caps e).filter (isRefused e.readDomain caps)) := by
  rw [examined, leftBy, List.filter_filter, List.filter_filter]
  have hexclude (a : Attribute) (ha : refuses e.readDomain caps Field.rules a = true) :
      (isExamined caps a && !Field.rules.any (·.applies caps a)) = false := by
    obtain ⟨r, hr, h⟩ := List.any_eq_true.mp ha
    have hany : Field.rules.any (·.applies caps a) = true :=
      List.any_eq_true.mpr ⟨r, hr, (Bool.and_eq_true_iff.mp h).1⟩
    rw [hany, Bool.not_true, Bool.and_false]
  refine ((perm_refusedBy Field.nodup_names hsole).append_right _).trans ?_
  refine (perm_filter_or hexclude e.request).trans (.of_eq (List.filter_congr fun a ha => ?_))
  exact refused_iff (hread a ha) fun hexamined => hdecoded a (List.mem_filter.mpr ⟨ha, hexamined⟩)

/-! ## What is filed -/

-- A field shows what is made of the first attribute of its key.
theorem filed?_getD {a : Attribute} {f : Field} {k : Content.Kind} (hof : Field.of? caps a = some f)
    (hk : f.kind? = some k) :
    (filed? readDomain caps f a).getD none = a.only?.bind (k.read? readDomain) := by
  have hrefused : isRefused readDomain caps a =
      a.only?.all fun v => k == .uri && (k.read? readDomain v).isNone :=
    isRefused_of_field hof hk
  unfold filed?
  cases honly : a.only? with
  | none =>
    rw [honly] at hrefused
    simp [hrefused]
  | some v =>
    rw [honly, Option.all_some] at hrefused
    cases hread : k.read? readDomain v with
    | none =>
      split <;> simp [hk, hread]
    | some c =>
      rw [hread] at hrefused
      simp [hof, hrefused, hk, hread]

theorem content?_classify (hsole : Sole (r.applies caps) e.request) (hr : r ∈ Field.rules)
    {k : Content.Kind} (hk : r.field.kind? = some k) :
    (classify caps e).1.content? r.field =
      (e.request.find? (r.applies caps)).bind (·.only?.bind (k.read? e.readDomain)) := by
  have hfield : r.field ≠ .ignored := by
    intro h
    rw [h] at hk
    cases hk
  have hother (a : Attribute) (ha : r.applies caps a = false) :
      (filed? e.readDomain caps r.field a).toList = [] := by
    have hof : Field.of? caps a ≠ some r.field := by
      rw [ne_eq, Field.Rule.of?_eq_some_iff hr hfield, ha]
      decide
    rw [filed?, if_neg fun h => hof h.1]
    rfl
  have hsole' : Sole (r.applies caps) (examined caps e) := hsole.sublist List.filter_sublist
  rw [content?_eq_last, List.filterMap_eq_flatMap_toList, hsole'.flatMap_eq hother, find?_examined hr]
  cases hfound : e.request.find? (r.applies caps) with
  | none => rfl
  | some a =>
    have happlies : r.applies caps a = true := by simpa using List.find?_some hfound
    rw [Option.bind_some, ← filed?_getD (Field.Rule.of?_eq hr happlies) hk, Option.toList_some,
      List.flatMap_singleton]
    cases filed? e.readDomain caps r.field a <;> rfl

theorem requested_classify (hsole : Sole (r.applies caps) e.request) (hr : r ∈ Field.rules)
    (hf : r.field = .requested) :
    (classify caps e).1.requested =
      (({} : WellKnown).request ((e.request.find? (r.applies caps)).toList.flatMap
        (·.values.filterMap Value.string?))).requested := by
  have hfield : r.field ≠ .ignored := by
    rw [hf]
    decide
  have hother (a : Attribute) (ha : r.applies caps a = false) : keywords caps a = [] := by
    have hof : Field.of? caps a ≠ some .requested := by
      rw [← hf, ne_eq, Field.Rule.of?_eq_some_iff hr hfield, ha]
      decide
    rw [keywords, if_neg hof]
  have hsole' : Sole (r.applies caps) (examined caps e) := hsole.sublist List.filter_sublist
  rw [(classify_files caps e).1.requested, hsole'.flatMap_eq hother, find?_examined hr]
  cases hfound : e.request.find? (r.applies caps) with
  | none => rfl
  | some a =>
    have happlies : r.applies caps a = true := by simpa using List.find?_some hfound
    have hof : Field.of? caps a = some .requested := by rw [Field.Rule.of?_eq hr happlies, hf]
    rw [Option.toList_some, List.flatMap_singleton, List.flatMap_singleton, keywords, if_pos hof]

/-! ## Agreement -/

-- What is left when all keys are taken is left out of the examined attributes as well.
theorem filter_unexamined (caps : Capabilities) (request : List Attribute) :
    (leftBy caps Field.rules request).filter (!isExamined caps ·) =
      request.filter (!isExamined caps ·) := by
  rw [leftBy, List.filter_filter]
  congr 1
  funext a
  cases hany : Field.rules.any (·.applies caps a) with
  | false => rw [Bool.not_false, Bool.and_true]
  | true =>
    obtain ⟨r, hr, happlies⟩ := List.any_eq_true.mp hany
    rw [Field.Rule.isExamined hr happlies]
    rfl

theorem Taken.eq_classify {result : WellKnown × Exchange} (h : Taken caps e result)
    (hsole : ∀ r ∈ Field.rules, Sole (r.applies caps) e.request) : (classify caps e).1 = result.1 := by
  apply ext_content
  · intro f
    cases hk : f.kind? with
    | none => cases f <;> first | rfl | cases hk
    | some k =>
      obtain ⟨r, hr, rfl⟩ := Field.exists_rule f
      rw [content?_classify (hsole r hr) hr hk, h.content r hr k hk]
  · obtain ⟨r, hr, hf⟩ := Field.exists_rule .requested
    rw [requested_classify (hsole r hr) hr hf, h.requested r hr hf]
  · rw [(classify_files caps e).1.asked, h.asked]

/-- For a request that was read, in which the texts examined are UTF-8 and no two attributes examined have
the same group, tag and name, one pass gives the same fields and keywords as the claims, leaves the same
request, and refuses the same attributes, each as often. -/
theorem classify_agrees (config : Config) (source : Source) (sink : Sink) (declared : Option Nat)
    (readDomain : Uri.DomainReader) {e : Exchange}
    (hparse : Exchange.parse (.opened config source sink declared readDomain) = .ok () e)
    (caps : Capabilities) (hdecoded : ∀ a ∈ examined caps e, Decoded a)
    (hdistinct : Distinct (examined caps e)) :
    (classify caps e).1 = (claimAll caps e).1 ∧
      (classify caps e).2.request = (claimAll caps e).2.request ∧
      ((classify caps e).2.queue.attributes .unsupported).Perm
        ((claimAll caps e).2.queue.attributes .unsupported) := by
  have hread := (Exchange.keeps_parse.ok hparse).request nofun
  have hsole (r : Field.Rule) (hr : r ∈ Field.rules) : Sole (r.applies caps) e.request := hdistinct.sole hr
  have htaken := claimAll_taken hsole
  have hclassified := (classify_files caps e).2
  refine ⟨htaken.eq_classify hsole, ?_, ?_⟩
  · rw [hclassified, htaken.request, filter_unexamined]
  · have hperm := perm_refused hread hdecoded hsole
    rw [hclassified, htaken.queue]
    show ((e.queue.refuse _).attributes .unsupported).Perm _
    rw [Queue.attributes_refuse, Queue.attributes_refuse, if_pos rfl, if_pos rfl]
    exact ((hperm.symm).map Attribute.unsupported).append_left _

/-- A request to make a printer. Its URI is none, its driver file has two names, and it says more than is
understood. -/
def crowded : RequestForm :=
  { header := { major := 1, minor := 1, operation := 16385, requestId := 9 }
    groups :=
      [⟨.operation,
        [⟨.charset, Text.utf8 "attributes-charset", Text.utf8 "utf-8", []⟩,
         ⟨.keyword, Text.utf8 "colour", Text.utf8 "blue", []⟩,
         ⟨.uri, Text.utf8 "printer-uri", Text.utf8 "nowhere", []⟩,
         ⟨.name, Text.utf8 "printer-name", Text.utf8 "smith", []⟩,
         ⟨.keyword, Text.utf8 "requested-attributes", Text.utf8 "all",
           [(.keyword, Text.utf8 "media")]⟩]⟩,
       ⟨.printer,
        [⟨.uri, Text.utf8 "device-uri", Text.utf8 "socket://10.0.0.9", []⟩,
         ⟨.name, Text.utf8 "ppd-name", Text.utf8 "a", [(.name, Text.utf8 "b")]⟩]⟩,
       ⟨.job, [⟨.keyword, Text.utf8 "copies", [], []⟩]⟩] }

def crowdedStart : Exchange :=
  final (Exchange.parse (.opened {} { rest := crowded.bytes } {} none))

def makingPrinter : Capabilities :=
  { printer := true, pcreate := true }

-- The two orders of what is refused.
example :
    ((classify makingPrinter crowdedStart).2.queue.attributes .unsupported).map (·.name) =
        ["colour", "printer-uri", "ppd-name"] ∧
      ((claimAll makingPrinter crowdedStart).2.queue.attributes .unsupported).map (·.name) =
        ["printer-uri", "ppd-name", "colour"] := by
  decide +kernel

theorem crowded_agrees :
    (∀ a ∈ examined makingPrinter crowdedStart, Decoded a) ∧
    Distinct (examined makingPrinter crowdedStart) ∧
    (classify makingPrinter crowdedStart).1 = (claimAll makingPrinter crowdedStart).1 ∧
    (classify makingPrinter crowdedStart).2.request.map (·.name) = ["copies"] ∧
    (claimAll makingPrinter crowdedStart).2.request.map (·.name) = ["copies"] ∧
    ((classify makingPrinter crowdedStart).2.queue.attributes .unsupported).Perm
      ((claimAll makingPrinter crowdedStart).2.queue.attributes .unsupported) := by
  have hreadable : succeeded (Exchange.parse (.opened {} { rest := crowded.bytes } {} none)) = true := by
    decide +kernel
  have hread : Exchange.parse (.opened {} { rest := crowded.bytes } {} none) = .ok () crowdedStart :=
    eq_ok_of_succeeded hreadable
  have hdecoded : ∀ a ∈ examined makingPrinter crowdedStart, Decoded a := by decide +kernel
  have hdistinct : Distinct (examined makingPrinter crowdedStart) := by decide +kernel
  have hleft : (classify makingPrinter crowdedStart).2.request.map (·.name) = ["copies"] := by
    decide +kernel
  obtain ⟨hfields, hrequest, hrefused⟩ :=
    classify_agrees {} { rest := crowded.bytes } {} none Uri.asciiDomain hread makingPrinter hdecoded
      hdistinct
  refine ⟨hdecoded, hdistinct, hfields, hleft, ?_, hrefused⟩
  rw [← hrequest]
  exact hleft

end WellKnown
end Ipp
