import Ipp.Proofs.Exchange.Sifting
import Ipp.Proofs.Request.Contents
import Mathlib.Data.List.Nodup

/-!
# What classification does

One pass over the examined attributes, apart from what it does to each of them: which are refused
(`isRefused`), and what a field shows afterwards, which is the last that was filed there
(`content?_eq_last`).
-/

namespace Ipp

/-! ## Fields and what they hold -/

/-- What is taken from the only value of a well-known attribute. -/
inductive Content where
  | uri (u : Uri)
  | text (s : String)
  | number (n : Int32)
  deriving DecidableEq

inductive Content.Kind where
  | uri
  | text
  | number
  deriving DecidableEq

/-- What a value is, taken as one of a kind. -/
def Content.Kind.read? (readDomain : Uri.DomainReader) : Content.Kind → Value → Option Content
  | uri, v => (WellKnown.file.uri? readDomain v).map .uri
  | text, v => v.string?.map .text
  | number, v => v.integer?.map .number

/-- The kind of what a field holds. The keywords that are requested are no field, and neither is what is
ignored. -/
def Field.kind? : Field → Option Content.Kind
  | ignored | requested => none
  | printerUri | jobUri => some .uri
  | printerName | deviceClass | ppdMake | deviceUri | ppdName => some .text
  | jobId | limit => some .number

/-! ## The rules -/

namespace Field

variable {caps : Capabilities} {a : Attribute} {r r' : Rule}

theorem of?_eq_some {f : Field} (h : of? caps a = some f) :
    ∃ r ∈ rules, r.field = f ∧ r.applies caps a = true := by
  obtain ⟨r, hr, hf⟩ := Option.map_eq_some_iff.mp h
  have happlies := List.find?_some hr
  exact ⟨r, List.mem_of_find?_eq_some hr, hf, happlies⟩

theorem Rule.key_eq (h : r.applies caps a = true) :
    a.group = r.group ∧ a.tag = r.tag ∧ a.name = r.name := by
  simp only [applies, Attribute.isFor, Bool.and_eq_true, beq_iff_eq] at h
  exact ⟨h.1.1.1, h.1.1.2, h.1.2⟩

-- No attribute has the keys of two rules.
theorem nodup_names : (rules.map (·.name)).Nodup := by
  decide

theorem Rule.eq_of_applies (hr : r ∈ rules) (hr' : r' ∈ rules) (ha : r.applies caps a = true)
    (ha' : r'.applies caps a = true) : r = r' :=
  List.inj_on_of_nodup_map nodup_names hr hr' ((key_eq ha).2.2.symm.trans (key_eq ha').2.2)

theorem Rule.of?_eq (hr : r ∈ rules) (ha : r.applies caps a = true) : of? caps a = some r.field := by
  rw [of?]
  cases h : rules.find? (·.applies caps a) with
  | none => exact absurd ha (List.find?_eq_none.mp h r hr)
  | some r' =>
    have ha' : r'.applies caps a = true := by simpa using List.find?_some h
    rw [eq_of_applies hr (List.mem_of_find?_eq_some h) ha ha']
    rfl

-- Only what is ignored has two rules.
theorem names_of_fields : ∀ r ∈ rules, ∀ r' ∈ rules, r.field ≠ .ignored → r'.field = r.field →
    r'.name = r.name := by
  decide

theorem Rule.of?_eq_some_iff (hr : r ∈ rules) (hf : r.field ≠ .ignored) :
    of? caps a = some r.field ↔ r.applies caps a = true := by
  refine ⟨fun h => ?_, of?_eq hr⟩
  obtain ⟨r', hr', hfield, happlies⟩ := of?_eq_some h
  rwa [List.inj_on_of_nodup_map nodup_names hr' hr (names_of_fields r hr r' hr' hf hfield)] at happlies

-- Every field has a rule.
theorem exists_rule (f : Field) : ∃ r ∈ Field.rules, r.field = f := by
  cases f <;> decide

-- Texts and numbers are filed under tags whose values are such.
theorem family_of_kind : ∀ r ∈ rules, (r.field.kind? = some .text → r.tag.family = .string) ∧
    (r.field.kind? = some .number → r.tag.family = .integer) := by
  decide

-- What has a key is examined.
theorem groups_examined : ∀ r ∈ rules, r.group = .operation ∨
    r.group = .printer ∧ r.needs = some { pcreate := true } := by
  decide

theorem Rule.isExamined (hr : r ∈ rules) (ha : r.applies caps a = true) :
    WellKnown.isExamined caps a = true := by
  have hgroup := (key_eq ha).1
  rcases groups_examined r hr with hop | ⟨hprinter, hpcreate⟩
  · simp [WellKnown.isExamined, hgroup, hop]
  · have hneeds : r.needs.all caps.intersects = true := (Bool.and_eq_true_iff.mp ha).2
    simp only [hpcreate, Option.all_some, Capabilities.intersects, Bool.and_false, Bool.and_true,
      Bool.false_or] at hneeds
    simp [WellKnown.isExamined, hgroup, hprinter, hneeds]

end Field

theorem Attribute.only?_eq_some {a : Attribute} {v : Value} : a.only? = some v ↔ a.values = [v] := by
  unfold only?
  constructor
  · intro h
    split at h
    · next hvalues =>
      cases h
      exact hvalues
    · cases h
  · intro h
    rw [h]

/-- The only value of an attribute that was read is one of its tag. -/
theorem Attribute.IsRead.only_eq {a : Attribute} (h : a.IsRead) {v : Value} (hv : a.values = [v]) :
    ∃ bs, v = .ofBytes a.tag bs := by
  obtain ⟨f, -, ha⟩ := h
  have htag : a.tag = f.tag := congrArg Attribute.tag ha
  have hvalues : a.values = .ofBytes f.tag f.value :: f.more.map (.additional f.tag) :=
    congrArg Attribute.values ha
  rw [hv] at hvalues
  exact ⟨f.value, htag ▸ (List.cons.inj hvalues).1⟩

namespace WellKnown

variable {readDomain : Uri.DomainReader}

/-- What the accessor of a field returns. -/
def content? (w : WellKnown) : Field → Option Content
  | .ignored | .requested => none
  | .printerUri => w.printerUri.map .uri
  | .printerName => w.printerName.map .text
  | .jobUri => w.jobUri.map .uri
  | .jobId => w.jobId.map .number
  | .deviceClass => w.deviceClass.map .text
  | .ppdMake => w.ppdMake.map .text
  | .limit => w.limit.map .number
  | .deviceUri => w.deviceUri.map .text
  | .ppdName => w.ppdName.map .text

/-- The fields, the keywords requested and those asked about are all there is. -/
theorem ext_content {w w' : WellKnown} (hcontent : ∀ f, w.content? f = w'.content? f)
    (hrequested : w.requested = w'.requested) (hasked : w.asked = w'.asked) : w = w' := by
  have huri {x y : Option Uri} (h : x.map Content.uri = y.map Content.uri) : x = y :=
    Option.map_injective (fun _ _ h => Content.uri.inj h) h
  have htext {x y : Option String} (h : x.map Content.text = y.map Content.text) : x = y :=
    Option.map_injective (fun _ _ h => Content.text.inj h) h
  have hnumber {x y : Option Int32} (h : x.map Content.number = y.map Content.number) : x = y :=
    Option.map_injective (fun _ _ h => Content.number.inj h) h
  cases w
  cases w'
  rw [mk.injEq]
  exact ⟨huri (hcontent .printerUri), htext (hcontent .printerName), huri (hcontent .jobUri),
    hnumber (hcontent .jobId), htext (hcontent .deviceClass), htext (hcontent .ppdMake),
    hnumber (hcontent .limit), htext (hcontent .deviceUri), htext (hcontent .ppdName), hrequested, hasked⟩

/-! ## One attribute -/

/-- Whether an examined attribute is queued as unsupported: nobody knows it, or it has not one value, or its
value is to be a URI and is none. -/
def isRefused (readDomain : Uri.DomainReader) (caps : Capabilities) (a : Attribute) : Bool :=
  match Field.of? caps a with
  | none => true
  | some f =>
    match f.kind?, a.only? with
    | none, _ => false
    | some _, none => true
    | some k, some v => k == .uri && (k.read? readDomain v).isNone

theorem isRefused_of_field {caps : Capabilities} {a : Attribute} {f : Field} {k : Content.Kind}
    (hof : Field.of? caps a = some f) (hk : f.kind? = some k) :
    isRefused readDomain caps a = a.only?.all fun v => k == .uri && (k.read? readDomain v).isNone := by
  simp only [isRefused, hof, hk]
  cases a.only? <;> rfl

/-- What is filed in a field when the attribute is examined. -/
def filed? (readDomain : Uri.DomainReader) (caps : Capabilities) (f : Field) (a : Attribute) :
    Option (Option Content) :=
  if Field.of? caps a = some f ∧ isRefused readDomain caps a = false then
    f.kind?.bind fun k => a.only?.map (k.read? readDomain)
  else none

theorem filed?_eq_some {caps : Capabilities} {f : Field} {a : Attribute} {filed : Option Content}
    (h : filed? readDomain caps f a = some filed) :
    Field.of? caps a = some f ∧
      ∃ k v, f.kind? = some k ∧ a.only? = some v ∧ k.read? readDomain v = filed := by
  unfold filed? at h
  split at h
  · next hof =>
    obtain ⟨k, hk, hread⟩ := Option.bind_eq_some_iff.mp h
    obtain ⟨v, hv, hfiled⟩ := Option.map_eq_some_iff.mp hread
    exact ⟨hof.1, k, v, hk, hv, hfiled⟩
  · cases h

/-- The keywords that are requested by an attribute. -/
def keywords (caps : Capabilities) (a : Attribute) : List String :=
  if Field.of? caps a = some .requested then a.values.filterMap Value.string? else []

/-- From `w` to `w'` a field or a keyword was added by an examined attribute, or nothing. -/
structure Files (readDomain : Uri.DomainReader) (caps : Capabilities) (w : WellKnown) (a : Attribute)
    (w' : WellKnown) : Prop where
  content : ∀ f, w'.content? f = (filed? readDomain caps f a).getD (w.content? f)
  requested : w'.requested = (w.request (keywords caps a)).requested
  asked : w'.asked = w.asked

-- A value that is filed is found in its field only.
theorem content?_file {w w' : WellKnown} {f : Field} {k : Content.Kind} {v : Value} (hk : f.kind? = some k)
    (hw : w.file readDomain f v = some w') (g : Field) :
    w'.content? g = if f = g then k.read? readDomain v else w.content? g := by
  cases f with
  | ignored => cases hk
  | requested => cases hk
  | printerUri =>
    cases hk
    obtain ⟨u, hu, rfl⟩ := Option.map_eq_some_iff.mp hw
    cases g <;> simp [content?, Content.Kind.read?, hu]
  | jobUri =>
    cases hk
    obtain ⟨u, hu, rfl⟩ := Option.map_eq_some_iff.mp hw
    cases g <;> simp [content?, Content.Kind.read?, hu]
  | _ =>
    cases hk
    cases hw
    cases g <;> rfl

theorem rest_file {w w' : WellKnown} {f : Field} {v : Value} (hw : w.file readDomain f v = some w') :
    w'.requested = w.requested ∧ w'.asked = w.asked := by
  cases f with
  | printerUri | jobUri =>
    obtain ⟨u, -, rfl⟩ := Option.map_eq_some_iff.mp hw
    exact ⟨rfl, rfl⟩
  | _ =>
    cases hw
    exact ⟨rfl, rfl⟩

-- Only what is to be a URI may be refused for its value.
theorem isSome_file (w : WellKnown) {f : Field} {k : Content.Kind} (hk : f.kind? = some k) (v : Value) :
    (w.file readDomain f v).isSome = !(k == .uri && (k.read? readDomain v).isNone) := by
  cases f with
  | ignored => cases hk
  | requested => cases hk
  | printerUri | jobUri =>
    cases hk
    simp only [file, Content.Kind.read?]
    cases file.uri? readDomain v <;> rfl
  | _ =>
    cases hk
    rfl

theorem examine_of_kind {caps : Capabilities} {a : Attribute} {f : Field} {k : Content.Kind}
    (hof : Field.of? caps a = some f) (hk : f.kind? = some k) (w : WellKnown) (e : Exchange) :
    examine caps (w, e) a =
      match a.only?.bind (w.file e.readDomain f) with
      | some w => (w, e)
      | none => (w, e.demote a) := by
  unfold examine
  generalize hw : a.only?.bind (w.file e.readDomain f) = filed
  cases f with
  | ignored => cases hk
  | requested => cases hk
  | _ => cases filed <;> simp only [hof, hw]

theorem isRefused_of_kind {caps : Capabilities} {a : Attribute} {f : Field} {k : Content.Kind}
    (hof : Field.of? caps a = some f) (hk : f.kind? = some k) (w : WellKnown) :
    isRefused readDomain caps a = (a.only?.bind (w.file readDomain f)).isNone := by
  rw [isRefused_of_field hof hk]
  cases a.only? with
  | none => rfl
  | some v =>
    rw [Option.all_some, Option.bind_some, ← Bool.not_not (_ && _), ← w.isSome_file hk v,
      Option.not_isSome]

-- What is not filed leaves everything as it is.
theorem files_nothing {caps : Capabilities} {a : Attribute} (w : WellKnown)
    (hfiled : ∀ f, filed? readDomain caps f a = none) (hkeywords : keywords caps a = []) :
    Files readDomain caps w a w where
  content f := by
    rw [hfiled]
    rfl
  requested := by
    rw [hkeywords]
    rfl
  asked := rfl

/-- Examining an attribute files it, or refuses it. -/
theorem examine_files (caps : Capabilities) (w : WellKnown) (e : Exchange) (a : Attribute) :
    ∃ w', Files e.readDomain caps w a w' ∧
      examine caps (w, e) a =
        (w', { e with queue := e.queue.refuse ([a].filter (isRefused e.readDomain caps)) }) := by
  cases hof : Field.of? caps a with
  | none =>
    have hrefused : isRefused e.readDomain caps a = true := by simp only [isRefused, hof]
    refine ⟨w, files_nothing w (fun f => ?_) ?_, ?_⟩
    · simp [filed?, hof]
    · simp [keywords, hof]
    · rw [List.filter_cons_of_pos hrefused, List.filter_nil]
      simp only [examine, hof]
      rfl
  | some f =>
    cases hk : f.kind? with
    | none =>
      have hrefused : isRefused e.readDomain caps a = false := by simp only [isRefused, hof, hk]
      rw [List.filter_cons_of_neg (by rw [hrefused]; decide), List.filter_nil]
      have hfiled (g : Field) : filed? e.readDomain caps g a = none := by
        unfold filed?
        split
        · next h =>
          rw [hof, Option.some.injEq] at h
          rw [← h.1, hk]
          rfl
        · rfl
      cases f with
      | ignored =>
        refine ⟨w, files_nothing w hfiled (by simp [keywords, hof]), ?_⟩
        simp only [examine, hof]
        rfl
      | requested =>
        refine ⟨w.request (a.values.filterMap Value.string?), ⟨fun g => ?_, ?_, rfl⟩, ?_⟩
        · rw [hfiled]
          cases g <;> rfl
        · simp [keywords, hof]
        · simp only [examine, hof]
          rfl
      | _ => cases hk
    | some k =>
      have hkeywords : keywords caps a = [] := by
        unfold keywords
        split
        · next h =>
          rw [hof, Option.some.injEq] at h
          rw [h] at hk
          cases hk
        · rfl
      have hrefused : isRefused e.readDomain caps a = (a.only?.bind (w.file e.readDomain f)).isNone :=
        isRefused_of_kind hof hk w
      rw [examine_of_kind hof hk]
      cases hw : a.only?.bind (w.file e.readDomain f) with
      | none =>
        rw [hw] at hrefused
        refine ⟨w, files_nothing w (fun g => ?_) hkeywords, ?_⟩
        · simp [filed?, hrefused]
        · rw [List.filter_cons_of_pos hrefused, List.filter_nil]
          rfl
      | some w' =>
        rw [hw, Option.isNone_some] at hrefused
        obtain ⟨v, hv, hfile⟩ := Option.bind_eq_some_iff.mp hw
        obtain ⟨hrequested, hasked⟩ := rest_file hfile
        refine ⟨w', ⟨fun g => ?_, ?_, hasked⟩, ?_⟩
        · rw [content?_file hk hfile]
          simp only [filed?, hof, hrefused, hv]
          by_cases hg : f = g
          · simp [← hg, hk]
          · simp [hg]
        · rw [hkeywords, hrequested]
          rfl
        · rw [List.filter_cons_of_neg (by rw [hrefused]; decide), List.filter_nil]
          rfl

/-! ## All of them -/

/-- From `w` to `w'` the attributes were examined one after the other. -/
structure FilesAll (readDomain : Uri.DomainReader) (caps : Capabilities) (w : WellKnown)
    (examined : List Attribute) (w' : WellKnown) : Prop where
  content : ∀ f, w'.content? f =
    ((examined.filterMap (filed? readDomain caps f)).getLast?).getD (w.content? f)
  requested : w'.requested = (w.request (examined.flatMap (keywords caps))).requested
  asked : w'.asked = w.asked

theorem Files.cons {caps : Capabilities} {w w' w'' : WellKnown} {a : Attribute} {examined : List Attribute}
    (h : Files readDomain caps w a w') (h' : FilesAll readDomain caps w' examined w'') :
    FilesAll readDomain caps w (a :: examined) w'' where
  content f := by
    rw [h'.content, h.content, List.filterMap_cons]
    cases filed? readDomain caps f a with
    | none => rfl
    | some content => rw [List.getLast?_cons]; rfl
  requested := by
    rw [h'.requested, List.flatMap_cons]
    simp only [request, List.foldl_append, h.requested]
  asked := h'.asked.trans h.asked

theorem foldl_examine_files (caps : Capabilities) (examined : List Attribute) (w : WellKnown)
    (e : Exchange) :
    ∃ w', FilesAll e.readDomain caps w examined w' ∧
      examined.foldl (examine caps) (w, e) =
        (w', { e with queue := e.queue.refuse (examined.filter (isRefused e.readDomain caps)) }) := by
  induction examined generalizing w e with
  | nil => exact ⟨w, ⟨fun _ => rfl, rfl, rfl⟩, rfl⟩
  | cons a examined ih =>
    obtain ⟨w', hfiles, hexamine⟩ := examine_files caps w e a
    obtain ⟨w'', hall, hrest⟩ :=
      ih w' { e with queue := e.queue.refuse ([a].filter (isRefused e.readDomain caps)) }
    refine ⟨w'', hfiles.cons hall, ?_⟩
    rw [List.foldl_cons, hexamine, hrest, ← Queue.refuse_append, ← List.filter_append]
    rfl

/-- The attributes of the request that are examined. -/
def examined (caps : Capabilities) (e : Exchange) : List Attribute :=
  e.request.filter (isExamined caps)

/-- Classification files the examined attributes in order, and queues as unsupported in order those that it
refuses. The others stay in the request. -/
theorem classify_files (caps : Capabilities) (e : Exchange) :
    FilesAll e.readDomain caps {} (examined caps e) (classify caps e).1 ∧
      (classify caps e).2 = { e with
        request := e.request.filter (!isExamined caps ·)
        queue := e.queue.refuse ((examined caps e).filter (isRefused e.readDomain caps)) } := by
  obtain ⟨w, hall, heq⟩ := foldl_examine_files caps (examined caps e) {}
    { e with request := e.request.filter (!isExamined caps ·) }
  have hclassify : classify caps e = _ := heq
  rw [hclassify]
  exact ⟨hall, rfl⟩

theorem content?_empty (f : Field) : ({} : WellKnown).content? f = none := by
  cases f <;> rfl

/-- A field shows the last that was filed there. -/
theorem content?_eq_last (caps : Capabilities) (e : Exchange) (f : Field) :
    (classify caps e).1.content? f =
      ((examined caps e).filterMap (filed? e.readDomain caps f)).getLast?.join := by
  rw [(classify_files caps e).1.content, content?_empty]
  cases ((examined caps e).filterMap (filed? e.readDomain caps f)).getLast? <;> rfl

theorem exists_filed_of_content? {caps : Capabilities} {e : Exchange} {f : Field} {x : Content}
    (h : (classify caps e).1.content? f = some x) :
    ∃ a ∈ examined caps e, filed? e.readDomain caps f a = some (some x) := by
  rw [content?_eq_last, Option.join_eq_some_iff] at h
  exact List.mem_filterMap.mp (List.mem_of_getLast? h)

end WellKnown
end Ipp
