import Ipp.Proofs.Exchange.Accounting
import Mathlib.Data.List.TakeWhile

/-!
# Asking about attributes

The request names the attributes that it wants to see in the reply, by keywords. A classification keeps them,
each once, and which of them it was asked about (`Tracks`); the others are to be reported when it is let go of.
-/

namespace Ipp

/-! ## Reports -/

namespace LogEvent

/-- The keywords that are reported in a log. -/
def reported (log : List LogEvent) : List String :=
  log.filterMap keyword?

theorem keyword?_notImplemented (k : String) : (notImplemented k).keyword? = some k :=
  keyword?_eq_some_iff.mpr rfl

variable (keywords : List String) (log : List LogEvent)

-- A log is what stands in front of the reports at its end, and these.
theorem split_reports : log =
    (log.reverse.dropWhile (·.keyword?.isSome)).reverse ++
      (log.reverse.takeWhile (·.keyword?.isSome)).reverse := by
  rw [← List.reverse_append, List.takeWhile_append_dropWhile, List.reverse_reverse]

/-- The keywords are reported besides those that were reported before. -/
theorem reported_reportKeywords :
    (reported (reportKeywords keywords log)).Perm (reported log ++ keywords) := by
  have hmade (ks : List String) : reported (ks.map notImplemented) = ks := by
    rw [reported, List.filterMap_map]
    have hself : keyword? ∘ notImplemented = some := funext keyword?_notImplemented
    rw [hself, List.filterMap_some]
  have hbefore : reported log =
      reported (log.reverse.dropWhile (·.keyword?.isSome)).reverse ++
        (reported (log.reverse.takeWhile (·.keyword?.isSome))).reverse := by
    conv => lhs; rw [split_reports log]
    rw [reported, List.filterMap_append, List.filterMap_reverse (l := log.reverse.takeWhile _)]
    rfl
  rw [reportKeywords, reported, List.filterMap_append, hbefore, List.append_assoc]
  refine List.Perm.append_left _ ?_
  refine (List.Perm.of_eq (hmade _)).trans ((List.mergeSort_perm _ _).trans ?_)
  exact List.Perm.append_right keywords (List.reverse_perm _).symm

/-- All other events stay as they are. -/
theorem filter_reportKeywords :
    (reportKeywords keywords log).filter (·.keyword?.isNone) = log.filter (·.keyword?.isNone) := by
  have hmade (ks : List String) : (ks.map notImplemented).filter (·.keyword?.isNone) = [] := by
    rw [List.filter_eq_nil_iff]
    intro event hevent
    obtain ⟨k, -, rfl⟩ := List.mem_map.mp hevent
    rw [keyword?_notImplemented]
    exact Bool.false_ne_true
  have hrun : (log.reverse.takeWhile (·.keyword?.isSome)).reverse.filter (·.keyword?.isNone) = [] := by
    rw [List.filter_eq_nil_iff]
    intro event hevent
    have hsome := List.mem_takeWhile_imp (List.mem_reverse.mp hevent)
    rw [Option.isNone_iff_eq_none]
    intro hnone
    rw [hnone] at hsome
    cases hsome
  conv => rhs; rw [split_reports log]
  rw [reportKeywords, List.filter_append, List.filter_append, hmade, hrun]

end LogEvent

/-! ## Keywords -/

/-- The keywords that the request wants to see, as often as it names them. -/
def Exchange.requestedKeywords (e : Exchange) : List String :=
  (e.request.filter (·.isFor .operation .keyword "requested-attributes")).flatMap
    (·.values.filterMap Value.string?)

namespace WellKnown

theorem of?_eq_requested (caps : Capabilities) (a : Attribute) :
    Field.of? caps a = some .requested ↔ a.isFor .operation .keyword "requested-attributes" = true := by
  let r : Field.Rule :=
    { field := .requested, group := .operation, tag := .keyword, name := "requested-attributes" }
  have hr : r ∈ Field.rules := by simp [Field.rules, r]
  have happlies : r.applies caps a = a.isFor .operation .keyword "requested-attributes" :=
    Bool.and_true _
  rw [← happlies]
  exact Field.Rule.of?_eq_some_iff hr nofun

theorem mem_keywords_examined (caps : Capabilities) (e : Exchange) (k : String) :
    k ∈ (examined caps e).flatMap (keywords caps) ↔ k ∈ e.requestedKeywords := by
  rw [Exchange.requestedKeywords, List.mem_flatMap, List.mem_flatMap]
  refine exists_congr fun a => ?_
  rw [examined, List.mem_filter, List.mem_filter, keywords]
  by_cases hkey : a.isFor .operation .keyword "requested-attributes" = true
  · -- What has the key is in the operation group, which is always examined.
    have hgroup : isExamined caps a = true := by
      simp only [Attribute.isFor, Bool.and_eq_true] at hkey
      rw [isExamined, hkey.1.1, Bool.true_or]
    rw [if_pos ((of?_eq_requested caps a).mpr hkey), hgroup, hkey]
  · rw [if_neg (mt (of?_eq_requested caps a).mp hkey)]
    simp [hkey]

theorem nodup_request {w : WellKnown} (h : w.requested.Nodup) (ks : List String) :
    (w.request ks).requested.Nodup := by
  unfold request
  dsimp only
  generalize w.requested = before at h
  induction ks generalizing before with
  | nil => exact h
  | cons k ks ih =>
    rw [List.foldl_cons]
    split
    · exact ih before h
    · next hnew =>
      refine ih _ (List.nodup_append.mpr ⟨h, List.nodup_singleton k, fun a ha b hb => ?_⟩)
      rw [List.mem_singleton.mp hb]
      rintro rfl
      exact hnew (List.contains_iff_mem.mpr ha)

/-! ## Asking -/

/-- `w` has been made of a request with the keywords `ks`, and been asked about some attributes since. -/
structure Tracks (ks : List String) (Asked : String → Prop) (w : WellKnown) : Prop where
  nodup : w.requested.Nodup
  requested : ∀ k, k ∈ w.requested ↔ k ∈ ks
  -- Asking does not count where everything is wanted.
  asked : ∀ k, k ∈ w.asked ↔ k ∈ ks ∧ "all" ∉ ks ∧ Asked k

variable {ks : List String} {Asked Asked' : String → Prop} {w : WellKnown}

theorem Tracks.congr (h : w.Tracks ks Asked) (hasked : ∀ k, Asked k ↔ Asked' k) : w.Tracks ks Asked' where
  nodup := h.nodup
  requested := h.requested
  asked k := by rw [h.asked, hasked]

theorem tracks_classify (caps : Capabilities) (e : Exchange) :
    (classify caps e).1.Tracks e.requestedKeywords fun _ => False := by
  obtain ⟨hfiles, -⟩ := classify_files caps e
  refine ⟨?_, fun k => ?_, fun k => ?_⟩
  · rw [hfiles.requested]
    exact nodup_request List.nodup_nil _
  · rw [hfiles.requested, mem_request, mem_keywords_examined]
    exact or_iff_right List.not_mem_nil
  · rw [hfiles.asked]
    simp

theorem Tracks.wantsAll_iff (h : w.Tracks ks Asked) : w.wantsAll = true ↔ ks = [] ∨ "all" ∈ ks := by
  have hnil : w.requested = [] ↔ ks = [] := by
    rw [List.eq_nil_iff_forall_not_mem, List.eq_nil_iff_forall_not_mem]
    exact forall_congr' fun k => not_congr (h.requested k)
  rw [wantsAll, Bool.or_eq_true, List.isEmpty_iff, hnil, List.contains_iff_mem, h.requested]

/-- The answer depends on the keywords alone. -/
theorem Tracks.answer (h : w.Tracks ks Asked) (name : String) :
    (w.isRequested name).1 = decide (ks = [] ∨ "all" ∈ ks ∨ name ∈ ks) := by
  unfold isRequested
  by_cases hall : w.wantsAll = true
  · rw [if_pos hall]
    have hwanted := h.wantsAll_iff.mp hall
    exact (decide_eq_true (hwanted.imp_right .inl)).symm
  · rw [if_neg hall]
    have hnot := mt h.wantsAll_iff.mpr hall
    rw [not_or] at hnot
    by_cases hname : name ∈ ks
    · rw [if_pos (List.contains_iff_mem.mpr ((h.requested name).mpr hname))]
      exact (decide_eq_true (.inr (.inr hname))).symm
    · have hnone : ¬w.requested.contains name = true := by
        rw [List.contains_iff_mem, h.requested]
        exact hname
      rw [if_neg hnone]
      exact (decide_eq_false (by simp [hnot, hname])).symm

theorem Tracks.isRequested (h : w.Tracks ks Asked) (name : String) :
    (w.isRequested name).2.Tracks ks fun k => Asked k ∨ k = name := by
  unfold WellKnown.isRequested
  by_cases hall : w.wantsAll = true
  · rw [if_pos hall]
    refine ⟨h.nodup, h.requested, fun k => ?_⟩
    rw [h.asked]
    rcases h.wantsAll_iff.mp hall with hnil | hwild
    · simp [hnil]
    · simp [hwild]
  rw [if_neg hall]
  have hnot : "all" ∉ ks := fun hwild => hall (h.wantsAll_iff.mpr (.inr hwild))
  by_cases hname : name ∈ ks
  · rw [if_pos (List.contains_iff_mem.mpr ((h.requested name).mpr hname))]
    refine ⟨h.nodup, h.requested, fun k => ?_⟩
    rw [List.mem_cons, h.asked]
    constructor
    · rintro (rfl | ⟨hk, -, hasked⟩)
      · exact ⟨hname, hnot, .inr rfl⟩
      · exact ⟨hk, hnot, .inl hasked⟩
    · rintro ⟨hk, -, hasked | rfl⟩
      · exact .inr ⟨hk, hnot, hasked⟩
      · exact .inl rfl
  · have hnone : ¬w.requested.contains name = true := by
      rw [List.contains_iff_mem, h.requested]
      exact hname
    rw [if_neg hnone]
    refine ⟨h.nodup, h.requested, fun k => ?_⟩
    rw [h.asked]
    -- Asking about what is not among the keywords changes nothing.
    refine and_congr_right fun hk => and_congr_right fun _ => ?_
    have hother : k ≠ name := by
      rintro rfl
      exact hname hk
    exact (or_iff_left hother).symm

theorem Tracks.nodup_unasked (h : w.Tracks ks Asked) : w.unasked.Nodup :=
  h.nodup.filter _

theorem Tracks.mem_unasked (h : w.Tracks ks Asked) (k : String) :
    k ∈ w.unasked ↔ k ∈ ks ∧ ("all" ∈ ks ∨ ¬Asked k) := by
  rw [unasked, List.mem_filter, h.requested, Bool.not_eq_true', ← Bool.not_eq_true, List.contains_iff_mem,
    h.asked]
  by_cases hall : "all" ∈ ks <;> simp +contextual [hall]

end WellKnown

end Ipp
