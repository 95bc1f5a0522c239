import Ipp.Proofs.Exchange.ClaimByClaim
import Ipp.Proofs.Exchange.Settling
import Ipp.Proofs.Numerals

/-!
# Job numbers

A request names a job by the number in its `job-id`, or else at the end of its `job-uri`. The end of a URI
counts where it spells a number above zero, with any zeros in front (`jobNumber?_eq_some_iff`). What `job-id`
holds counts as it is, also where the claim of a positive number would refuse it (`job_numbers`).
-/

namespace Ipp

open Calls

/-! ## Spelled numbers -/

theorem exists_of_pos {n : Int32} (hn : 0 < n) :
    ∃ k : Nat, 0 < k ∧ k < 0x80000000 ∧ n = Int32.ofNat k ∧ n.toInt = k := by
  have hpos : 0 < n.toInt := Int32.lt_iff_toInt_lt.mp hn
  have hlt := n.toInt_lt
  have hk : n.toInt = (n.toInt.toNat : Int) := (Int.toNat_of_nonneg (by omega)).symm
  refine ⟨n.toInt.toNat, by omega, by omega, ?_, hk⟩
  rw [← Int32.ofInt_eq_ofNat, ← hk, Int32.ofInt_toInt]

namespace WellKnown

/-- The text is the decimal spelling of the number, behind any zeros and perhaps a plus sign. -/
def Spells (s : String) (n : Int32) : Prop :=
  ∃ plus zeros, (plus = "" ∨ plus = "+") ∧
    s = plus ++ String.ofList (List.replicate zeros '0') ++ Text.decimalInt n.toInt

theorem spells_iff {s : String} {n : Int32} {k : Nat} (hk : n.toInt = k) :
    Spells s n ↔ ∃ zeros, s.toList = List.replicate zeros '0' ++ Nat.toDigits 10 k ∨
      s.toList = '+' :: (List.replicate zeros '0' ++ Nat.toDigits 10 k) := by
  have hspelled (plus : String) (zeros : Nat) :
      s = plus ++ String.ofList (List.replicate zeros '0') ++ Text.decimalInt n.toInt ↔
        s.toList = plus.toList ++ (List.replicate zeros '0' ++ Nat.toDigits 10 k) := by
    have hdecimal : (Text.decimalInt n.toInt).toList = Nat.toDigits 10 k := by
      rw [hk]
      exact String.toList_ofList
    rw [← String.toList_inj, String.toList_append, String.toList_append, String.toList_ofList, hdecimal,
      List.append_assoc]
  constructor
  · rintro ⟨plus, zeros, rfl | rfl, hs⟩
    · exact ⟨zeros, .inl ((hspelled _ zeros).mp hs)⟩
    · exact ⟨zeros, .inr ((hspelled _ zeros).mp hs)⟩
  · rintro ⟨zeros, hs | hs⟩
    · exact ⟨"", zeros, .inl rfl, (hspelled _ zeros).mpr hs⟩
    · exact ⟨"+", zeros, .inr rfl, (hspelled _ zeros).mpr hs⟩

theorem spells_decimalInt (n : Int32) : Spells (Text.decimalInt n.toInt) n :=
  ⟨"", 0, .inl rfl, by simp⟩

theorem jobNumber?_eq_natOfDecimal? {s : String} {n : Int32} :
    jobNumber? s = some n ↔ 0 < n ∧ ∃ k : Nat, n.toInt = k ∧
      Text.natOfDecimal? (if s.toList.head? = some '+' then s.toList.tail else s.toList) = some k := by
  have hjob : jobNumber? s =
      (Text.natOfDecimal? (if s.toList.head? = some '+' then s.toList.tail else s.toList)).bind fun k =>
        if 0 < k && k < 0x80000000 then some (Int32.ofNat k) else none := rfl
  rw [hjob, Option.bind_eq_some_iff]
  constructor
  · rintro ⟨k, hk, hn⟩
    split at hn
    · next hbounds =>
      rw [Bool.and_eq_true, decide_eq_true_iff, decide_eq_true_iff] at hbounds
      cases hn
      have htoInt := Int32.toInt_ofNat_of_lt hbounds.2
      refine ⟨Int32.lt_iff_toInt_lt.mpr ?_, k, htoInt, hk⟩
      rw [htoInt]
      exact Int.natCast_pos.mpr hbounds.1
    · cases hn
  · rintro ⟨hpos, k, htoInt, hk⟩
    obtain ⟨k', hpos', hlt, rfl, htoInt'⟩ := exists_of_pos hpos
    obtain rfl : k' = k := Int.natCast_inj.mp (htoInt'.symm.trans htoInt)
    exact ⟨k', hk, if_pos (by simp [hpos', hlt])⟩

theorem jobNumber?_eq_some_iff {s : String} {n : Int32} :
    jobNumber? s = some n ↔ 0 < n ∧ Spells s n := by
  rw [jobNumber?_eq_natOfDecimal?]
  refine and_congr_right fun hpos => ?_
  obtain ⟨k, -, -, -, htoInt⟩ := exists_of_pos hpos
  rw [spells_iff htoInt]
  constructor
  · rintro ⟨k', htoInt', hk⟩
    obtain rfl : k' = k := Int.natCast_inj.mp (htoInt'.symm.trans htoInt)
    obtain ⟨zeros, hdigits⟩ := Text.natOfDecimal?_eq_some_iff.mp hk
    refine ⟨zeros, ?_⟩
    split at hdigits
    · next hplus =>
      rw [← hdigits]
      exact .inr (List.eq_cons_of_mem_head? hplus)
    · exact .inl hdigits
  · rintro ⟨zeros, hs⟩
    refine ⟨k, htoInt, ?_⟩
    rw [Text.natOfDecimal?_eq_some_iff]
    refine ⟨zeros, ?_⟩
    rcases hs with hs | hs
    · -- No digit is a plus sign.
      rw [hs, if_neg fun hplus => ?_]
      exact absurd (Text.isDigit_of_mem_zeros (List.mem_of_head? hplus)) (by decide)
    · rw [hs]
      rfl

/-! ## The attribute -/

/-- Whether an attribute tells the number of a job. -/
def isJobId (a : Attribute) : Bool :=
  a.isFor .operation .integer "job-id"

/-- The rule by which an operation on a job understands it. -/
def jobIdRule : Field.Rule :=
  { field := .jobId, group := .operation, tag := .integer, name := "job-id", needs := some { job := true } }

theorem jobIdRule_mem : jobIdRule ∈ Field.rules := by
  simp [jobIdRule, Field.rules]

theorem applies_jobIdRule (caps : Capabilities) (a : Attribute) :
    jobIdRule.applies caps a = (isJobId a && caps.job) := by
  simp [jobIdRule, isJobId, Field.Rule.applies, Capabilities.intersects]

variable {caps : Capabilities} {e : Exchange}

theorem exists_of_jobId {n : Int32} (h : (classify caps e).1.jobId = some n) :
    ∃ a ∈ e.request, isJobId a = true ∧ a.values = [.integer n] := by
  have hcontent : (classify caps e).1.content? .jobId = some (.number n) :=
    congrArg (·.map Content.number) h
  obtain ⟨a, ha, hfiled⟩ := exists_filed_of_content? hcontent
  obtain ⟨hof, k, v, hk, hv, hread⟩ := filed?_eq_some hfiled
  cases hk
  obtain ⟨m, hm, hnumber⟩ := Option.map_eq_some_iff.mp hread
  cases hnumber
  cases Value.integer?_eq_some.mp hm
  have happlies := (Field.Rule.of?_eq_some_iff jobIdRule_mem nofun).mp hof
  rw [applies_jobIdRule, Bool.and_eq_true] at happlies
  exact ⟨a, (List.mem_filter.mp ha).1, happlies.1, Attribute.only?_eq_some.mp hv⟩

-- Where the attribute comes once, what it holds is filed.
theorem jobId_classify (hcaps : caps.job = true) (hsole : Sole isJobId e.request) :
    (classify caps e).1.jobId = (e.request.find? isJobId).bind (·.only?.bind Value.integer?) := by
  have hkey : jobIdRule.applies caps = isJobId := funext fun a => by
    rw [applies_jobIdRule, hcaps, Bool.and_true]
  have hcontent : (classify caps e).1.jobId.map Content.number =
      (e.request.find? isJobId).bind (·.only?.bind fun v => v.integer?.map .number) := by
    have hfield := content?_classify (hkey ▸ hsole) jobIdRule_mem rfl
    rw [hkey] at hfield
    exact hfield
  refine Option.map_injective (fun _ _ h => Content.number.inj h) (hcontent.trans ?_)
  simp only [Option.map_bind, Function.comp_def]

/-- The claim of a positive number takes what is filed only if it is above zero. -/
theorem claimPositive_jobId (hcaps : caps.job = true) (hsole : Sole isJobId e.request) :
    (Exchange.claimPositive .operation "job-id" e).1 = (classify caps e).1.jobId.filter (0 < ·) := by
  rw [jobId_classify hcaps hsole]
  refine (Exchange.claimValue_takes .operation .integer "job-id" e Exchange.positive?).1.trans ?_
  show (e.request.find? isJobId).bind (·.only?.bind Exchange.positive?) = _
  cases e.request.find? isJobId with
  | none => rfl
  | some a =>
    rw [Option.bind_some, Option.bind_some]
    cases a.only? <;> rfl

/-! ## Jobs -/

/-- Without a number in `job-id`, the end of `job-uri` may give one. -/
theorem job?_of_jobId_none {w : WellKnown} (h : w.jobId = none) {n : Int32} :
    w.job? = some n ↔ 0 < n ∧ ∃ u s, w.jobUri = some u ∧ u.basename? = some s ∧ Spells s n := by
  rw [job?, h, Option.none_or, Option.bind_eq_some_iff]
  simp only [Option.bind_eq_some_iff, jobNumber?_eq_some_iff]
  constructor
  · rintro ⟨s, ⟨u, hu, hs⟩, hpos, hspells⟩
    exact ⟨hpos, u, s, hu, hs, hspells⟩
  · rintro ⟨hpos, u, s, hu, hs, hspells⟩
    exact ⟨s, ⟨u, hu, hs⟩, hpos, hspells⟩

/-- A job number is above zero, unless it is what a `job-id` of the request holds. Without that it is what
the end of `job-uri` spells. Where a request has one `job-id` and that is a number, it is the job number of
an operation on a job; the claim of a positive number hands it out only if it is above zero. -/
theorem job_numbers (caps : Capabilities) (e : Exchange) :
    (∀ n, (classify caps e).1.job? = some n → 0 < n ∨
      (classify caps e).1.jobId = some n ∧
        ∃ a ∈ e.request, isJobId a = true ∧ a.values = [.integer n]) ∧
    ((classify caps e).1.jobId = none → ∀ n, (classify caps e).1.job? = some n ↔
      0 < n ∧ ∃ u s, (classify caps e).1.jobUri = some u ∧ u.basename? = some s ∧ Spells s n) ∧
    (caps.job = true → ∀ a k, e.request.filter isJobId = [a] → a.values = [.integer k] →
      (classify caps e).1.job? = some k ∧
      (Exchange.claimPositive .operation "job-id" e).1 = if 0 < k then some k else none) := by
  refine ⟨fun n hn => ?_, fun hnone n => job?_of_jobId_none hnone, fun hcaps a k ha hk => ?_⟩
  · cases hid : (classify caps e).1.jobId with
    | none => exact .inl ((job?_of_jobId_none hid).mp hn).1
    | some m =>
      rw [job?, hid, Option.some_or] at hn
      cases hn
      exact .inr ⟨rfl, exists_of_jobId hid⟩
  · have hsole : Sole isJobId e.request := by
      rw [Sole, ha]
      exact Nat.le_refl 1
    have hid : (classify caps e).1.jobId = some k := by
      rw [jobId_classify hcaps hsole, ← List.head?_filter, ha, List.head?_cons, Option.bind_some,
        Attribute.only?_eq_some.mpr hk]
      rfl
    refine ⟨by rw [job?, hid, Option.some_or], ?_⟩
    rw [claimPositive_jobId hcaps hsole, hid, Option.filter_some]
    simp only [decide_eq_true_eq]

/-- A request that names a job by the bytes of a number. -/
def numbered (value : List UInt8) : RequestForm :=
  { header := { major := 1, minor := 1, operation := 11, requestId := 7 }
    groups := [⟨.operation, [⟨.integer, Text.utf8 "job-id", value, []⟩]⟩] }

def numberedStart (value : List UInt8) : Exchange :=
  final (Exchange.parse (.opened {} { rest := (numbered value).bytes } {} none))

theorem numbered_twelve :
    (classify { job := true } (numberedStart [0, 0, 0, 12])).1.job? = some 12 ∧
    (Exchange.claimPositive .operation "job-id" (numberedStart [0, 0, 0, 12])).1 = some 12 := by
  have hrequest : (numberedStart [0, 0, 0, 12]).request.filter isJobId =
      [{ name := "job-id"
         group := .operation
         tag := .integer
         values := [.integer 12]
         block := 1 }] := by
    decide +kernel
  obtain ⟨-, -, hsingle⟩ := job_numbers { job := true } (numberedStart [0, 0, 0, 12])
  exact hsingle rfl _ 12 hrequest rfl

/-- An operation on a job takes a zero for a job number, where the claim refuses it. -/
theorem numbered_zero :
    succeeded (Exchange.parse (.opened {} { rest := (numbered [0, 0, 0, 0]).bytes } {} none)) = true ∧
    ¬(∀ n, (classify { job := true } (numberedStart [0, 0, 0, 0])).1.job? = some n → 0 < n) ∧
    (classify { job := true } (numberedStart [0, 0, 0, 0])).1.job? ≠
      (Exchange.claimPositive .operation "job-id" (numberedStart [0, 0, 0, 0])).1 := by
  have hnumber : (classify { job := true } (numberedStart [0, 0, 0, 0])).1.job? = some 0 := by
    decide +kernel
  refine ⟨by decide +kernel, fun h => absurd (h 0 hnumber) (by decide), ?_⟩
  decide +kernel

end WellKnown
end Ipp
