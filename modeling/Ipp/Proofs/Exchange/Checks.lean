import Ipp.Proofs.Exchange.Stages

/-!
# What the checks decide

A request passes the checks if it is of version 1 and begins with a charset that can be read. Each of the
others has the status of the first check that it fails.
-/

namespace Ipp.Exchange

open Calls

variable {e : Exchange}

/-- The first attribute of the request is the charset of the operation group, and `v` is its only value. -/
def LeadsWith (e : Exchange) (v : Value) : Prop :=
  ∃ a rest, e.request = a :: rest ∧ a.group = .operation ∧ a.tag = .charset ∧
    a.name = "attributes-charset" ∧ a.values = [v]

/-- The request is of version 1, and begins with a charset that can be read, in upper case or lower. -/
def Passes (e : Exchange) : Prop :=
  e.header.major = 1 ∧ ∃ text, e.LeadsWith (.string text) ∧
    String.ofList (text.toList.map Char.toLower) ∈ ["utf-8", "us-ascii"]

/-- The status is that of the first check that the request fails: its version is another, or it does not
begin with a charset, or that charset cannot be read. -/
structure RefusedWith (e : Exchange) (status : Status) : Prop where
  version : e.header.major ≠ 1 → status = 0x0503
  leading : e.header.major = 1 → (¬∃ v, e.LeadsWith v) → status = 0x0400
  charset : e.header.major = 1 → (∃ v, e.LeadsWith v) → status = 0x040D

theorem leadsWithCharset_iff : e.leadsWithCharset = true ↔ ∃ v, e.LeadsWith v := by
  unfold leadsWithCharset LeadsWith
  cases hrequest : e.request with
  | nil => exact iff_of_false nofun fun ⟨v, a, rest, h, _⟩ => nomatch h
  | cons a rest =>
    simp only [Attribute.isFor, Attribute.isSingle, Bool.and_eq_true, beq_iff_eq, List.length_eq_one_iff,
      List.cons.injEq]
    constructor
    · rintro ⟨⟨⟨hgroup, htag⟩, hname⟩, v, hv⟩
      exact ⟨v, a, rest, ⟨rfl, rfl⟩, hgroup, htag, hname, hv⟩
    · rintro ⟨v, _, _, ⟨rfl, rfl⟩, hgroup, htag, hname, hv⟩
      exact ⟨⟨⟨hgroup, htag⟩, hname⟩, v, hv⟩

/-! ## The checks one by one -/

theorem precheck_of_version (h : e.header.major ≠ 1) :
    precheck e = (some Status.versionNotSupported, e) :=
  if_pos h

theorem precheck_of_not_leading (h : e.header.major = 1) (hleads : ¬∃ v, e.LeadsWith v) :
    precheck e = (some Status.badRequest, e) := by
  have hfails : e.leadsWithCharset = false := Bool.eq_false_iff.mpr (mt leadsWithCharset_iff.mp hleads)
  unfold precheck
  rw [if_neg (not_not_intro h), hfails]
  rfl

-- The charset that is claimed is the one that leads.
theorem precheck_of_leading (h : e.header.major = 1) {v : Value} (hleads : e.LeadsWith v) :
    (precheck e).1 =
      if v.string?.any isReadableCharset then none else some Status.charsetNotSupported := by
  have hpasses : e.leadsWithCharset = true := leadsWithCharset_iff.mpr ⟨v, hleads⟩
  obtain ⟨a, rest, hrequest, hgroup, htag, hname, hvalues⟩ := hleads
  have hkey : a.isFor .operation .charset "attributes-charset" = true := by
    simp only [Attribute.isFor, hgroup, htag, hname, beq_self_eq_true, Bool.and_self]
  have hfound : e.find? .operation .charset "attributes-charset" = some a := by
    rw [find?, hrequest]
    exact List.find?_cons_of_pos hkey
  have hsingle : a.isSingle = true := by
    rw [Attribute.isSingle, hvalues]
    rfl
  have hvalue : a.values.head?.bind Value.string? = v.string? := by rw [hvalues]; rfl
  unfold precheck
  rw [if_neg (not_not_intro h), hpasses, claimSingle_single hfound hsingle]
  simp only [Bool.not_true, Bool.false_eq_true, if_false, hvalue]
  cases v.string?.any isReadableCharset <;> rfl

/-! ## Their outcome -/

-- There is only one first attribute.
theorem LeadsWith.unique {v w : Value} (hv : e.LeadsWith v) (hw : e.LeadsWith w) : v = w := by
  obtain ⟨a, rest, hrequest, -, -, -, hvalues⟩ := hv
  obtain ⟨b, rest', hrequest', -, -, -, hvalues'⟩ := hw
  cases hrequest.symm.trans hrequest'
  cases hvalues.symm.trans hvalues'
  rfl

theorem any_string?_iff {v : Value} {p : String → Bool} :
    v.string?.any p = true ↔ ∃ text, v = .string text ∧ p text = true := by
  cases v with
  | string text =>
    constructor
    · exact fun h => ⟨text, rfl, h⟩
    · rintro ⟨_, ⟨⟩, h⟩
      exact h
  | integer | boolean | bytes | tagged => exact iff_of_false nofun fun ⟨_, h, _⟩ => nomatch h

theorem isReadableCharset_iff {text : String} : isReadableCharset text = true ↔
    String.ofList (text.toList.map Char.toLower) ∈ ["utf-8", "us-ascii"] :=
  List.contains_iff_mem

theorem precheck_passes_iff : (precheck e).1 = none ↔ e.Passes := by
  by_cases hversion : e.header.major = 1
  · by_cases hleads : ∃ v, e.LeadsWith v
    · obtain ⟨v, hv⟩ := hleads
      rw [precheck_of_leading hversion hv]
      by_cases hreadable : v.string?.any isReadableCharset = true
      · rw [if_pos hreadable]
        obtain ⟨text, rfl, htext⟩ := any_string?_iff.mp hreadable
        exact iff_of_true rfl ⟨hversion, text, hv, isReadableCharset_iff.mp htext⟩
      · rw [if_neg hreadable]
        refine iff_of_false nofun ?_
        rintro ⟨-, text, hv', htext⟩
        exact hreadable (any_string?_iff.mpr ⟨text, hv.unique hv', isReadableCharset_iff.mpr htext⟩)
    · rw [precheck_of_not_leading hversion hleads]
      refine iff_of_false nofun ?_
      rintro ⟨-, text, hv, -⟩
      exact hleads ⟨_, hv⟩
  · rw [precheck_of_version hversion]
    exact iff_of_false nofun fun h => hversion h.1

theorem refusedWith_of_precheck {status : Status} (h : (precheck e).1 = some status) :
    e.RefusedWith status := by
  refine ⟨fun hversion => ?_, fun hversion hleads => ?_, fun hversion hleads => ?_⟩
  · rw [precheck_of_version hversion] at h
    cases h
    rfl
  · rw [precheck_of_not_leading hversion hleads] at h
    cases h
    rfl
  · obtain ⟨v, hv⟩ := hleads
    rw [precheck_of_leading hversion hv] at h
    split at h <;> cases h
    rfl

theorem RefusedWith.ne_ok {status : Status} (h : e.RefusedWith status) : status ≠ Status.ok := by
  rintro rfl
  by_cases hversion : e.header.major = 1
  · by_cases hleads : ∃ v, e.LeadsWith v
    · cases h.charset hversion hleads
    · cases h.leading hversion hleads
  · cases h.version hversion

/-! ## Prepared exchanges -/

/-- The exchange behind the checks: it has the status of the one that failed, and the attributes that open
the operation group are queued. -/
def checked (e : Exchange) : Exchange :=
  { (precheck e).2 with
    status := (precheck e).1.getD (precheck e).2.status
    queue := ((precheck e).2.queue.insert (.ofText .charset "attributes-charset" "utf-8")).insert
      (.ofText .naturalLanguage "attributes-natural-language" "en") }

theorem checked_eq {failed : Option Status} (h : (precheck e).1 = failed) :
    e.checked = { (precheck e).2 with
      status := failed.getD (precheck e).2.status
      queue := ((precheck e).2.queue.insert (.ofText .charset "attributes-charset" "utf-8")).insert
        (.ofText .naturalLanguage "attributes-natural-language" "en") } := by
  rw [← h]
  rfl

-- The request is handled if no check has set another status.
theorem prepare_eq (e : Exchange) : prepare e =
    match parse e with
    | .error fault e' => .error fault e'
    | .ok () e' => .ok (decide (e'.checked.status = Status.ok)) e'.checked := by
  unfold prepare
  cases hp : parse e with
  | error fault e' => exact bind_of_error hp _
  | ok _ e' =>
    have hcheck : (modifyGet precheck : Action (Option Status)) e' =
        .ok (precheck e').1 (precheck e').2 := rfl
    rw [bind_of_ok hp, bind_of_ok hcheck]
    cases hfailed : (precheck e').1 with
    | none =>
      show EStateM.Result.ok _ _ = EStateM.Result.ok (decide (e'.checked.status = Status.ok)) e'.checked
      rw [checked_eq hfailed]
      rfl
    | some status =>
      show EStateM.Result.ok _ _ = EStateM.Result.ok (decide (e'.checked.status = Status.ok)) e'.checked
      rw [checked_eq hfailed]
      rfl

theorem status_of_parse {e e' : Exchange} (h : parse e = .ok () e') : e'.status = Status.ok := by
  obtain ⟨a, e₁, -, hbody⟩ := bind_eq_ok.mp h
  obtain ⟨r, -, log, rfl⟩ := parseBody_ok hbody
  rfl

-- A request that was read and passes has the status that reading gave it.
theorem status_checked (h : e.status = Status.ok) :
    (e.Passes → e.checked.status = Status.ok) ∧ (¬e.Passes → e.RefusedWith e.checked.status) := by
  have hkept : (precheck e).2.status = Status.ok := by
    rw [(precheck_sifts e).rest]
    exact h
  rw [← precheck_passes_iff]
  cases hfailed : (precheck e).1 with
  | none =>
    rw [checked_eq hfailed]
    exact ⟨fun _ => hkept, fun hnot => absurd rfl hnot⟩
  | some status =>
    rw [checked_eq hfailed]
    exact ⟨nofun, fun _ => refusedWith_of_precheck hfailed⟩

theorem substitute_checked (e : Exchange) : e.checked.substitute = e.substitute := by
  show (precheck e).2.substitute = e.substitute
  rw [(precheck_sifts e).rest]

theorem checked_works (e : Exchange) : e.Works e.checked := by
  have hworks := (precheck_sifts e).works
  exact ⟨hworks.reads, hworks.request, hworks.header, hworks.root, hworks.replied, hworks.closed⟩

end Ipp.Exchange
