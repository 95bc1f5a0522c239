import Ipp.Proofs.Channel.Delivering
import Ipp.Proofs.Numerals
import Ipp.Proofs.Session.Channels

/-!
# The document

What stands behind the attributes of a request of known length is handed over as a whole, or the call fails.
Whatever was called before, and however the streams behave, a document that is incomplete is never passed off
as complete (`document_delivered_exactly`).
-/

namespace Ipp

open Calls

variable {input : List UInt8} {script : List ReadEvent} {sink : Sink} {bufferSize n length : Nat}

namespace Channel

variable {c : Channel}

-- No more is passed over than was declared.
theorem StandsIn.cursor_le {declared : Option Nat} (h : c.StandsIn input declared)
    (hdeclared : declared = some length) : c.cursor ≤ length := by
  have hremaining := h.remaining
  rw [hdeclared] at hremaining
  obtain ⟨left, -, hsum⟩ := Option.map_eq_some_iff.mp hremaining
  have hcursor := h.cursor
  omega

-- When it succeeds, all of the rest was there, and was handed over.
theorem Refills.copyRest_ok
    (h : (opened { rest := input, script } sink (some length) bufferSize).Refills n c) {target : Sink}
    {handed : Array UInt8} (hok : (copyRest target c).outcome = .ok handed) :
    length ≤ input.length ∧ handed.toList = input.extract c.cursor length ∧
      (copyRest target c).sink.bytes = target.bytes ++ input.extract c.cursor length ∧
      (copyRest target c).channel.AtEnd ∧ c.source.Unbroken (copyRest target c).channel.source := by
  obtain ⟨m, hmore⟩ := kept_proceeds.copyRest target c
  have hstands := h.standsIn
  have hstands' := (h.trans hmore).standsIn
  obtain ⟨passed, hpasses, hcopied⟩ := hands_copyRest target c
  rw [hok] at hcopied
  obtain ⟨hhanded, hsent, hend⟩ := hcopied
  have hdeclared : c.remaining.isSome = true := by
    have hsome := congrArg Option.isSome hstands.remaining
    rwa [Option.isSome_map] at hsome
  obtain ⟨hcursor, hall⟩ := hstands'.atEnd hend
  have hlength : (copyRest target c).channel.cursor = length := by
    rcases hall with hall | ⟨hnone, -⟩
    · rw [hcursor]
      exact (Option.some.inj hall).symm
    · cases hnone
  have hpassed := hstands.extract_eq hpasses hstands'
  rw [hlength] at hpassed
  have hlist : handed.toList = passed := by
    rw [hhanded]
    simp
  refine ⟨?_, hlist.trans hpassed, by rw [hsent, hpassed], hend, ?_⟩
  · rw [← hlength, hcursor]
    exact hstands'.within
  · exact unbroken_copyRestWithin hdeclared hok

-- When it fails, a first part of the rest was handed over.
theorem Refills.copyRest_error
    (h : (opened { rest := input, script } sink (some length) bufferSize).Refills n c) {target : Sink}
    {fault : Fault} (herror : (copyRest target c).outcome = .error fault) :
    ∃ k, (copyRest target c).sink.bytes = target.bytes ++ (input.extract c.cursor length).take k := by
  obtain ⟨m, hmore⟩ := kept_proceeds.copyRest target c
  have hstands' := (h.trans hmore).standsIn
  obtain ⟨passed, hpasses, hcopied⟩ := hands_copyRest target c
  rw [herror] at hcopied
  obtain ⟨-, k, hk⟩ := hcopied
  have hpassed := h.standsIn.extract_eq hpasses hstands'
  have hwithin := hstands'.cursor_le rfl
  refine ⟨min k ((copyRest target c).channel.cursor - c.cursor), ?_⟩
  rw [hk, hpassed, List.extract_eq_take_drop, List.extract_eq_take_drop, List.take_take, List.take_take]
  congr 2
  omega

-- An input that holds what was declared and does not fail gives it.
theorem Refills.steady
    (h : (opened { rest := input, script } sink (some length) bufferSize).Refills n c)
    (hsource : c.source.Steady) (hlength : length ≤ input.length) : c.Steady ∧ c.isShort = false := by
  have hstands := h.standsIn
  refine ⟨⟨hsource, fun he => nomatch hstands.ended he⟩, hstands.isShort_eq_false fun n hn => ?_⟩
  cases hn
  exact hlength

end Channel

namespace Exchange

/-- The hash of the empty text. -/
def hashOfNothing : String :=
  "e3b0c44298fc1c149afbf4c8996fb92427ae41e4649b934ca495991b7852b855"

theorem ofBytes_nil : DocumentDigest.ofBytes [] = { bytes := 0, sha256 := hashOfNothing } := by
  decide +kernel

/-- Handing over the document of a request of `length` bytes, of which the input is to give all, tells
truly whether it was all there. -/
structure DeliversDocument (input : List UInt8) (length : Nat) (e : Exchange) : Prop where
  within : e.channel.cursor ≤ length
  -- What was handed over is all that stands between the cursor and the end of the request, and the digest
  -- holds its length and spells its hash.
  whole : ∀ (target : Sink) (digest : DocumentDigest), (e.readDocument target).outcome = .ok digest →
    length ≤ input.length ∧
      (e.readDocument target).sink.bytes = target.bytes ++ input.extract e.channel.cursor length ∧
      digest.bytes = length - e.channel.cursor ∧
      Text.SpellsBytes digest.sha256 (Digest.Sha256.hash (input.extract e.channel.cursor length))
  short : input.length < length → ∀ target : Sink, ∃ fault, (e.readDocument target).outcome = .error fault
  -- A call on the input that fails, or gives nothing, is never passed over.
  broken : ∀ (target : Sink) (used : List ReadEvent),
    e.channel.source.script = used ++ (e.readDocument target).exchange.channel.source.script →
    (∃ event ∈ used, event.isSteady = false) → ∃ fault, (e.readDocument target).outcome = .error fault
  fails : ∀ (target : Sink) (fault : Fault), (e.readDocument target).outcome = .error fault →
    ∃ k, (e.readDocument target).sink.bytes =
      target.bytes ++ (input.extract e.channel.cursor length).take k
  -- It is handed over once, and nothing afterwards.
  once : ∀ (target : Sink) (digest : DocumentDigest), (e.readDocument target).outcome = .ok digest →
    ∀ target' : Sink, (e.readDocument target).exchange.readDocument target' =
      { outcome := .ok { bytes := 0, sha256 := hashOfNothing }
        sink := target'
        exchange := (e.readDocument target).exchange }
  succeeds : e.channel.source.Steady → length ≤ input.length → ∀ target : Sink, target.Steady →
    ∃ digest, (e.readDocument target).outcome = .ok digest

theorem delivers_of_refills {e : Exchange}
    (h : (Channel.opened { rest := input, script } sink (some length) bufferSize).Refills n e.channel) :
    e.DeliversDocument input length := by
  -- Either it succeeds, and then all was there, or it fails.
  have hcases : ∀ target, (∃ fault, (e.readDocument target).outcome = .error fault) ∨
      ∃ handed, (Channel.copyRest target e.channel).outcome = .ok handed ∧
        (e.readDocument target).outcome = .ok (.ofBytes handed.toList) := by
    intro target
    unfold readDocument deliver
    dsimp only
    cases (Channel.copyRest target e.channel).outcome with
    | error fault => exact .inl ⟨fault, rfl⟩
    | ok handed => exact .inr ⟨handed, rfl, rfl⟩
  refine ⟨?_, fun target digest hok => ?_, fun hshort target => ?_, fun target used hused hunsteady => ?_,
    fun target fault herror => h.copyRest_error (deliver_error herror), fun target digest hok target' => ?_,
    fun hsource hlength target htarget => ?_⟩
  · exact h.standsIn.cursor_le rfl
  · obtain ⟨handed, hcopied, rfl⟩ := deliver_ok hok
    obtain ⟨hlength, hhanded, hsent, -⟩ := h.copyRest_ok hcopied
    rw [hhanded]
    refine ⟨hlength, hsent, ?_, Text.spellsBytes_hexBytes _⟩
    show (input.extract e.channel.cursor length).length = _
    rw [List.extract_eq_take_drop, List.length_take, List.length_drop]
    omega
  · refine (hcases target).resolve_right ?_
    rintro ⟨handed, hcopied, -⟩
    exact Nat.not_le.mpr hshort (h.copyRest_ok hcopied).1
  · refine (hcases target).resolve_right ?_
    rintro ⟨handed, hcopied, -⟩
    obtain ⟨-, -, -, -, hunbroken⟩ := h.copyRest_ok hcopied
    obtain ⟨event, hevent, hfalse⟩ := hunsteady
    rw [hunbroken.steady_of_used hused event hevent] at hfalse
    cases hfalse
  · obtain ⟨handed, hcopied, -⟩ := deliver_ok hok
    obtain ⟨-, -, -, hend, -⟩ := h.copyRest_ok hcopied
    have hagain := hend.copyRest target'
    unfold readDocument deliver
    dsimp only
    rw [hagain, ← ofBytes_nil]
    rfl
  · obtain ⟨hsteady, hwhole⟩ := h.steady hsource hlength
    unfold readDocument deliver
    dsimp only
    rw [(hsteady.copyRest hwhole htarget).outcome]
    exact ⟨_, rfl⟩

end Exchange

/-- Whatever was called before on an exchange whose length was declared, its document is handed over as a whole
and once, or the call fails: for every input, buffer and behaviour of the streams. -/
theorem document_delivered_exactly (config : Config) (input : List UInt8) (script : List ReadEvent)
    (sink : Sink) (length : Nat) (calls : List Call) :
    (Session.play calls
      { exchange := .opened config { rest := input, script } sink (some length) }).2.exchange.DeliversDocument
        input length := by
  obtain ⟨n, hrefills⟩ := Channel.kept_proceeds.play calls
    { exchange := .opened config { rest := input, script } sink (some length) }
  exact Exchange.delivers_of_refills hrefills

/-- A text that came in pieces, as the document of a request of which nothing else was read. -/
def greeting : Exchange :=
  .opened { bufferSize := 4 }
    { rest := Text.utf8 "hello world", script := [.upTo 3, .interrupted, .upTo 1] } {} (some 11)

theorem greeting_delivered :
    (greeting.readDocument {}).outcome = .ok
      { bytes := 11
        sha256 := "b94d27b9934d3e08a52e52d7da7dabfac484efe37a5380ee9088f7ace2efcde9" } ∧
    (greeting.readDocument {}).sink.bytes = Text.utf8 "hello world" ∧
    Text.SpellsBytes "b94d27b9934d3e08a52e52d7da7dabfac484efe37a5380ee9088f7ace2efcde9"
      (Digest.Sha256.hash (Text.utf8 "hello world")) ∧
    ((greeting.readDocument {}).exchange.readDocument {}).outcome = .ok
      { bytes := 0, sha256 := Exchange.hashOfNothing } := by
  have hdelivers := document_delivered_exactly { bufferSize := 4 } (Text.utf8 "hello world")
    [.upTo 3, .interrupted, .upTo 1] {} 11 []
  have hok : (greeting.readDocument {}).outcome = .ok
      { bytes := 11
        sha256 := "b94d27b9934d3e08a52e52d7da7dabfac484efe37a5380ee9088f7ace2efcde9" } := by
    decide +kernel
  obtain ⟨-, hsent, -, hspelled⟩ := hdelivers.whole {} _ hok
  exact ⟨hok, hsent, hspelled, congrArg Exchange.Delivered.outcome (hdelivers.once {} _ hok {})⟩

end Ipp
