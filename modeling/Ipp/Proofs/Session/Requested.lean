import Ipp.Proofs.Exchange.Asking
import Ipp.Proofs.Session.Steps

/-!
# Requested attributes

Whether the request wants to see an attribute depends on its keywords alone, whatever was asked before. Those
about which nobody has asked are reported in the end; but asking does not count where the request wants
everything (`asked_yet_reported`).
-/

namespace Ipp

open Calls

/-- The call classifies the request, or lets go of the classification. -/
def Call.classifies : Call → Bool
  | .classify _ | .release => true
  | _ => false

namespace Session

theorem wellKnown_onExchange {α : Type} (x : Exchange.Action α) (answer : α → Answer) (s : Session) :
    (final ((do return answer (← onExchange x) : Action Answer) s)).wellKnown = s.wellKnown := by
  rw [answer_onExchange]
  cases x s.exchange <;> rfl

theorem perform_isRequested {s : Session} {w : WellKnown} (hw : s.wellKnown = some w) (name : String) :
    perform (.isRequested name) s =
      .ok (.flag (w.isRequested name).1) { s with wellKnown := some (w.isRequested name).2 } := by
  show EStateM.Result.ok (Answer.flag (isRequested name s).1) (isRequested name s).2 = _
  unfold isRequested
  rw [hw]

theorem perform_release {s : Session} {w : WellKnown} (hw : s.wellKnown = some w) :
    perform .release s = .ok .done { s with exchange := w.release s.exchange, wellKnown := none } := by
  show EStateM.Result.ok Answer.done s.release = _
  rw [release, hw]

/-- Only classifying and asking touch the classification. -/
theorem wellKnown_perform {call : Call} (hcall : call.classifies = false)
    (hnot : ∀ name, call ≠ .isRequested name) (s : Session) :
    (final (perform call s)).wellKnown = s.wellKnown := by
  cases call with
  | demote handle =>
    rw [perform, get_bind]
    cases s.attribute? handle <;> rfl
  | addCopy g handle =>
    rw [perform, get_bind]
    cases s.attribute? handle with
    | none => rfl
    | some a => exact wellKnown_onExchange _ (fun _ => .done) s
  | isRequested name => exact absurd rfl (hnot name)
  | classify | release => cases hcall
  | parse | parseHeader | parseBody | addInteger | addIntegers | addString | addStrings | addBoolean
  | addOutOfBand | addTemplate | addTemplates | addEnd | addStandard | sendReply =>
    exact wellKnown_onExchange _ (fun _ => .done) s
  | echo => exact wellKnown_onExchange Exchange.echo .count s
  | header | request | queue | trace | info | find | claim | claimSingle | claimString | claimUri
  | claimPositive | claimEnum | claimBoolean | claimKeyword | claimIdentity | setStatus | rejectOperation
  | setRemoteUser | setRemoteAddr | setPathInfo | replyFromFile | forwardRequest | readDocument => rfl

variable {ks : List String} {done : List Call} {s : Session} {w : WellKnown}

/-- One call adds to what was asked about, or leaves it. -/
theorem tracks_step (hw : s.wellKnown = some w) (h : w.Tracks ks fun k => .isRequested k ∈ done)
    {call : Call} (hcall : call.classifies = false) :
    ∃ w', (s.step call).2.wellKnown = some w' ∧ w'.Tracks ks fun k => .isRequested k ∈ done ++ [call] := by
  rw [step_eq]
  by_cases hasks : ∃ name, call = .isRequested name
  · obtain ⟨name, rfl⟩ := hasks
    rw [perform_isRequested hw]
    exact ⟨_, rfl, (h.isRequested name).congr fun k => by simp⟩
  · have hnot : ∀ name, call ≠ .isRequested name := fun name heq => hasks ⟨name, heq⟩
    rw [wellKnown_perform hcall hnot]
    refine ⟨w, hw, h.congr fun k => ?_⟩
    simp [(hnot k).symm]

theorem tracks_play (hw : s.wellKnown = some w) (h : w.Tracks ks fun k => .isRequested k ∈ done)
    {calls : List Call} (hcalls : ∀ call ∈ calls, call.classifies = false) :
    ∃ w', (s.play calls).2.wellKnown = some w' ∧
      w'.Tracks ks fun k => .isRequested k ∈ done ++ calls := by
  induction calls generalizing s w done with
  | nil => exact ⟨w, hw, h.congr fun k => by rw [List.append_nil]⟩
  | cons call calls ih =>
    obtain ⟨w', hw', h'⟩ := tracks_step hw h (hcalls call List.mem_cons_self)
    obtain ⟨w'', hw'', h''⟩ := ih hw' h' fun c hc => hcalls c (List.mem_cons_of_mem call hc)
    exact ⟨w'', hw'', h''.congr fun k => by rw [List.append_assoc, List.singleton_append]⟩

/-- Behind a classification nothing but the calls that ask is of account. -/
theorem tracks_behind_classify (s : Session) (caps : Capabilities) {calls : List Call}
    (hcalls : ∀ call ∈ calls, call.classifies = false) :
    ∃ w, (s.play (.classify caps :: calls)).2.wellKnown = some w ∧
      w.Tracks s.exchange.requestedKeywords fun k => .isRequested k ∈ calls := by
  have hclassified : (s.step (.classify caps)).2.wellKnown = some (WellKnown.classify caps s.exchange).1 :=
    rfl
  have hfresh : (WellKnown.classify caps s.exchange).1.Tracks s.exchange.requestedKeywords
      fun k => Call.isRequested k ∈ [] :=
    (WellKnown.tracks_classify caps s.exchange).congr fun _ => iff_of_false id List.not_mem_nil
  exact tracks_play hclassified hfresh hcalls

theorem log_release (hw : s.wellKnown = some w) :
    (s.step .release).2.exchange.log = LogEvent.reportKeywords w.unasked s.exchange.log := by
  rw [step_eq, perform_release hw]
  rfl

/-- Whether an attribute is wanted depends only on the keywords of the request, whatever was asked before: it is
if there are none, or one is `all` or its name. Letting go of the classification reports those keywords about
which nobody has asked, each once; and where one of them is `all` it reports every keyword. -/
theorem requested_bookkeeping (before : Session) (caps : Capabilities) {calls : List Call}
    (hcalls : ∀ call ∈ calls, call.classifies = false) :
    let ks := before.exchange.requestedKeywords
    let s := (before.play (.classify caps :: calls)).2
    let log := (s.step .release).2.exchange.log
    (∀ name, (s.step (.isRequested name)).1.answer =
        .ok (.flag (decide (ks = [] ∨ "all" ∈ ks ∨ name ∈ ks)))) ∧
      (∃ unasked : List String, unasked.Nodup ∧
        (∀ k, k ∈ unasked ↔ k ∈ ks ∧ ("all" ∈ ks ∨ .isRequested k ∉ calls)) ∧
        (LogEvent.reported log).Perm (LogEvent.reported s.exchange.log ++ unasked)) ∧
      log.filter (·.keyword?.isNone) = s.exchange.log.filter (·.keyword?.isNone) := by
  intro ks s log
  obtain ⟨w, hw, htracks⟩ := tracks_behind_classify before caps hcalls
  have hw : s.wellKnown = some w := hw
  have hlog : log = LogEvent.reportKeywords w.unasked s.exchange.log := log_release hw
  refine ⟨fun name => ?_, ⟨w.unasked, htracks.nodup_unasked, htracks.mem_unasked, ?_⟩, ?_⟩
  · rw [step, perform_isRequested hw, htracks.answer]
    rfl
  · rw [hlog]
    exact LogEvent.reported_reportKeywords _ _
  · rw [hlog]
    exact LogEvent.filter_reportKeywords _ _

/-- A request that wants to see some attributes. -/
def wish (first : String) (more : List String) : RequestForm :=
  { header := { major := 1, minor := 1, operation := 0x000B, requestId := 7 }
    groups := [⟨.operation, [⟨.keyword, Text.utf8 "requested-attributes", Text.utf8 first,
      more.map fun k => (.keyword, Text.utf8 k)⟩]⟩] }

/-- The request has been read from an input that holds nothing else. -/
def afterParsing (f : RequestForm) : Session :=
  (play [.parse] { exchange := .opened {} { rest := f.bytes } {} (some f.bytes.length) }).2

/-- Two attributes are wanted, and one of them was asked about. -/
def halfAsked : Session :=
  ((afterParsing (wish "job-id" ["job-uri"])).play [.classify {}, .isRequested "job-id"]).2

-- The other one is reported.
theorem requested_bookkeeping_halfAsked :
    (halfAsked.step (.isRequested "limit")).1.answer = .ok (.flag false) ∧
      LogEvent.reported (halfAsked.step .release).2.exchange.log = ["job-uri"] := by
  have hwanted : (afterParsing (wish "job-id" ["job-uri"])).exchange.requestedKeywords =
      ["job-id", "job-uri"] := by
    decide +kernel
  have hsilent : LogEvent.reported halfAsked.exchange.log = [] := by decide +kernel
  rw [halfAsked] at hsilent ⊢
  have hcalls : ∀ call ∈ [Call.isRequested "job-id"], call.classifies = false := by
    simp [Call.classifies]
  obtain ⟨hanswers, ⟨unasked, hnodup, hunasked, hreported⟩, -⟩ :=
    requested_bookkeeping (afterParsing (wish "job-id" ["job-uri"])) {} hcalls
  rw [hwanted] at hanswers hunasked
  have hone : unasked.Perm ["job-uri"] := by
    refine (List.perm_ext_iff_of_nodup hnodup (List.nodup_singleton _)).mpr fun k => ?_
    rw [hunasked]
    constructor
    · rintro ⟨hk, hall | hnot⟩
      · exact absurd hall (by simp)
      · have hother : k ≠ "job-id" := by
          rintro rfl
          exact hnot List.mem_cons_self
        exact (List.mem_cons.mp hk).resolve_left hother
    · intro hk
      rw [List.mem_singleton.mp hk]
      simp
  rw [hsilent, List.nil_append] at hreported
  rw [hanswers]
  exact ⟨rfl, List.perm_singleton.mp (hreported.trans hone)⟩

/-- Asking does not keep every keyword from being reported: those of a request for all attributes are reported
all the same. -/
theorem asked_yet_reported :
    ¬∀ f : RequestForm, f.WellFormed → ∀ (caps : Capabilities) (names : List String) (k : String),
      k ∈ LogEvent.reported (((afterParsing f).play
          (.classify caps :: names.map .isRequested)).2.step .release).2.exchange.log ↔
        k ∈ (afterParsing f).exchange.requestedKeywords ∧ k ∉ names := by
  intro h
  have hform : (wish "all" ["job-id"]).WellFormed := by decide +kernel
  have hwanted : (afterParsing (wish "all" ["job-id"])).exchange.requestedKeywords =
      ["all", "job-id"] := by
    decide +kernel
  have hcalls : ∀ call ∈ [Call.isRequested "job-id"], call.classifies = false := by
    simp [Call.classifies]
  obtain ⟨w, hw, htracks⟩ :=
    tracks_behind_classify (afterParsing (wish "all" ["job-id"])) {} hcalls
  rw [hwanted] at htracks
  have hunasked : "job-id" ∈ w.unasked := (htracks.mem_unasked "job-id").mpr (by simp)
  have hall := h (wish "all" ["job-id"]) hform {} ["job-id"] "job-id"
  rw [hwanted, List.map_singleton, log_release hw] at hall
  refine (hall.mp ?_).2 List.mem_cons_self
  exact (LogEvent.reported_reportKeywords w.unasked _).mem_iff.mpr (List.mem_append_right _ hunasked)

end Session
end Ipp
