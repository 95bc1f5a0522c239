import Ipp.Proofs.Exchange.Asking

/-!
# Wider capabilities

Adding capabilities can only make rules apply that did not apply before, each of which has a key of its own.
So what was understood is understood as before, and what is refused was refused before (`classify_widens`).
The printer group is a matter of its own: whether it is examined at all depends on the capability to make
printers.
-/

namespace Ipp

open Calls

namespace Capabilities

/-- Every capability of `c` is one of `d`. -/
def Within (c d : Capabilities) : Prop :=
  c.union d = d

instance (c d : Capabilities) : Decidable (c.Within d) :=
  inferInstanceAs (Decidable (c.union d = d))

theorem intersects_union (c d s : Capabilities) :
    (c.union d).intersects s = (c.intersects s || d.intersects s) := by
  simp only [intersects, union, Bool.and_or_distrib_right]
  ac_rfl

theorem Within.intersects {c d : Capabilities} (h : c.Within d) {s : Capabilities}
    (hc : c.intersects s = true) : d.intersects s = true := by
  rw [← h, intersects_union, hc, Bool.true_or]

end Capabilities

variable {c d : Capabilities} {a b : Attribute} {f : Field}

/-! ## Rules -/

namespace Field

theorem Rule.applies_of_within (h : c.Within d) {r : Rule} (ha : r.applies c a = true) :
    r.applies d a = true := by
  rw [applies, Bool.and_eq_true] at ha ⊢
  refine ⟨ha.1, ?_⟩
  cases hneeds : r.needs with
  | none => rfl
  | some s =>
    rw [hneeds, Option.all_some] at ha
    exact h.intersects ha.2

theorem of?_of_within (h : c.Within d) (hof : of? c a = some f) : of? d a = some f := by
  obtain ⟨r, hr, rfl, ha⟩ := of?_eq_some hof
  exact Rule.of?_eq hr (Rule.applies_of_within h ha)

/-- A field that is understood in one attribute is understood in every attribute that has its key. -/
theorem of?_iff_of_within (h : c.Within d) (hf : f ≠ .ignored) (hb : of? c b = some f) :
    of? d a = some f ↔ of? c a = some f := by
  refine ⟨fun ha => ?_, of?_of_within h⟩
  obtain ⟨r, hr, rfl, happlies⟩ := of?_eq_some hb
  have hkey := (Rule.of?_eq_some_iff hr hf).mp ha
  rw [Rule.applies, Bool.and_eq_true] at hkey happlies
  refine Rule.of?_eq hr ?_
  rw [Rule.applies, hkey.1, happlies.2]
  rfl

end Field

namespace WellKnown

variable {readDomain : Uri.DomainReader}

/-! ## Attributes -/

-- What becomes of an attribute depends on the field under which it is understood.
theorem isRefused_congr (h : Field.of? c a = Field.of? d a) :
    isRefused readDomain c a = isRefused readDomain d a := by
  simp only [isRefused, h]

theorem filed?_congr (h : Field.of? c a = Field.of? d a) :
    filed? readDomain c f a = filed? readDomain d f a := by
  simp only [filed?, h, isRefused_congr h]

theorem isRefused_of_within (h : c.Within d) (hrefused : isRefused readDomain d a = true) :
    isRefused readDomain c a = true := by
  cases hof : Field.of? c a with
  | none => simp only [isRefused, hof]
  | some f => rwa [isRefused_congr (hof.trans (Field.of?_of_within h hof).symm)]

-- Requested attributes are understood whatever the operation works on.
theorem keywords_eq (c d : Capabilities) (a : Attribute) : keywords c a = keywords d a := by
  simp only [keywords, of?_eq_requested]

theorem isExamined_congr (h : c.pcreate = d.pcreate) : isExamined c = isExamined d := by
  funext a
  rw [isExamined, isExamined, h]

/-! ## Fields -/

/-- Something is filed in the field, if only a text that cannot be read. -/
def Sets (caps : Capabilities) (e : Exchange) (f : Field) : Prop :=
  ∃ a ∈ examined caps e, (filed? e.readDomain caps f a).isSome = true

variable {e : Exchange}

theorem sets_of_content? {x : Content} (h : (classify c e).1.content? f = some x) : Sets c e f := by
  obtain ⟨a, ha, hfiled⟩ := exists_filed_of_content? h
  exact ⟨a, ha, Option.isSome_of_eq_some hfiled⟩

theorem filed?_of_sets (h : c.Within d) (hsets : Sets c e f) (a : Attribute) :
    filed? e.readDomain d f a = filed? e.readDomain c f a := by
  obtain ⟨b, -, hb⟩ := hsets
  obtain ⟨filed, hfiled⟩ := Option.isSome_iff_exists.mp hb
  obtain ⟨hof, k, -, hk, -⟩ := filed?_eq_some hfiled
  have hfield : f ≠ .ignored := by
    rintro rfl
    cases hk
  by_cases ha : Field.of? c a = some f
  · exact filed?_congr ((Field.of?_of_within h ha).trans ha.symm)
  · have hnot : Field.of? d a ≠ some f := mt (Field.of?_iff_of_within h hfield hof).mp ha
    rw [filed?, filed?, if_neg fun hfiled => hnot hfiled.1, if_neg fun hfiled => ha hfiled.1]

/-- A field that is set shows the same under wider capabilities. -/
theorem content?_of_sets (h : c.Within d) (hprinter : c.pcreate = d.pcreate) (hsets : Sets c e f) :
    (classify d e).1.content? f = (classify c e).1.content? f := by
  have hfiled : filed? e.readDomain d f = filed? e.readDomain c f := funext (filed?_of_sets h hsets)
  rw [content?_eq_last, content?_eq_last, hfiled, examined, examined, isExamined_congr hprinter]

/-! ## Classification -/

/-- Where an operation works on more, but makes printers as before or not at all, every field that was set
shows the same, the same keywords are requested and the same attributes are left in the request; and what is
queued as unsupported was queued before, in the same order. -/
theorem classify_widens (h : c.Within d) (hprinter : c.pcreate = d.pcreate) (e : Exchange) :
    (∀ f, Sets c e f → (classify d e).1.content? f = (classify c e).1.content? f) ∧
    (∀ f x, (classify c e).1.content? f = some x → (classify d e).1.content? f = some x) ∧
    (classify d e).1.requested = (classify c e).1.requested ∧
    (classify d e).2.request = (classify c e).2.request ∧
    (classify d e).2.queue.unsupported.Sublist (classify c e).2.queue.unsupported ∧
    ∀ g, g ≠ .unsupported → (classify d e).2.queue.list g = (classify c e).2.queue.list g := by
  have hexamined := isExamined_congr hprinter
  obtain ⟨hfiles, hleft⟩ := classify_files c e
  obtain ⟨hfiles', hleft'⟩ := classify_files d e
  refine ⟨fun f => content?_of_sets h hprinter, fun f x hx => ?_, ?_, ?_, ?_, fun g hg => ?_⟩
  · rw [content?_of_sets h hprinter (sets_of_content? hx), hx]
  · have hkeywords : keywords d = keywords c := funext (keywords_eq d c)
    rw [hfiles'.requested, hfiles.requested, hkeywords, examined, examined, hexamined]
  · rw [hleft', hleft, hexamined]
  · rw [hleft', hleft]
    show ((e.queue.refuse _).list .unsupported).Sublist ((e.queue.refuse _).list .unsupported)
    rw [Queue.list_refuse, Queue.list_refuse, if_pos rfl, if_pos rfl, examined, examined, hexamined]
    exact ((List.monotone_filter_right _ fun a => isRefused_of_within h).map _).append_left _
  · rw [hleft', hleft]
    show (e.queue.refuse _).list g = (e.queue.refuse _).list g
    rw [Queue.list_refuse, Queue.list_refuse, if_neg hg, if_neg hg]

/-- A request about a printer and one of its jobs, and with an attribute that no operation knows. -/
def twofold : RequestForm :=
  { header := { major := 1, minor := 1, operation := 9, requestId := 5 }
    groups :=
      [⟨.operation,
        [⟨.name, Text.utf8 "printer-name", Text.utf8 "smith", []⟩,
         ⟨.keyword, Text.utf8 "colour", Text.utf8 "blue", []⟩,
         ⟨.integer, Text.utf8 "job-id", [0, 0, 0, 9], []⟩]⟩] }

def twofoldStart : Exchange :=
  final (Exchange.parse (.opened {} { rest := twofold.bytes } {} none))

-- For an operation on printers alone the job is unsupported as well.
theorem twofold_widens :
    ({ printer := true } : Capabilities).Within { printer := true, job := true } ∧
    (classify { printer := true } twofoldStart).1.content? .printerName = some (.text "smith") ∧
    (classify { printer := true, job := true } twofoldStart).1.content? .printerName =
      some (.text "smith") ∧
    (classify { printer := true } twofoldStart).2.queue.unsupported.length = 2 ∧
    (classify { printer := true, job := true } twofoldStart).2.queue.unsupported.length = 1 ∧
    (classify { printer := true, job := true } twofoldStart).2.queue.unsupported.Sublist
      (classify { printer := true } twofoldStart).2.queue.unsupported := by
  have hwithin : ({ printer := true } : Capabilities).Within { printer := true, job := true } := by
    decide
  have hshown : (classify { printer := true } twofoldStart).1.content? .printerName =
      some (.text "smith") := by
    decide +kernel
  obtain ⟨-, hfields, -, -, hsublist, -⟩ := classify_widens hwithin rfl twofoldStart
  exact ⟨hwithin, hshown, hfields _ _ hshown, by decide +kernel, by decide +kernel, hsublist⟩

end WellKnown
end Ipp
