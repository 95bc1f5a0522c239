import Ipp.Proofs.Channel.Rewinding
import Ipp.Proofs.Session.Channels
import Ipp.Proofs.Session.Guards

/-!
# Forwarding the request

A request is forwarded as a whole, from its first byte, or not at all: an exchange goes back to the first
byte of its request, or refuses. Which of the two it is depends on how many blocks were read, and so on how
the input gave the bytes that were asked for. Behind the header alone a request can be forwarded if and only
if the first call on the input gave all of the header (`forwardRequest_after_header`).
-/

namespace Ipp

open Calls

variable {input : List UInt8} {script : List ReadEvent} {sink : Sink} {declared : Option Nat}
  {bufferSize n : Nat}

/-! ## Whole or not at all -/

namespace Exchange

/-- Where `n` blocks were read forwarding hands over the whole request from its first byte, fails as a stream
does, or is refused. -/
structure ForwardsExactly (input : List UInt8) (script : List ReadEvent) (declared : Option Nat) (n : Nat)
    (e : Exchange) : Prop where
  whole : ∀ (target : Sink) (k : Nat), (e.forwardRequest target).outcome = .ok k →
    ∃ bytes, (e.forwardRequest target).sink.bytes = target.bytes ++ bytes ∧ bytes.length = k ∧
      Channel.IsWhole input script declared bytes (e.forwardRequest target).exchange.channel
  refuses : ∀ target : Sink, (e.forwardRequest target).outcome = .error .cannotRewind ↔ 1 < n
  -- Nothing has happened then.
  untouched : ∀ target : Sink, (e.forwardRequest target).outcome = .error .cannotRewind →
    (e.forwardRequest target).sink = target ∧ (e.forwardRequest target).exchange = e
  -- Whatever fails, what was handed over starts with the first byte.
  fails : ∀ (target : Sink) (fault : Fault), (e.forwardRequest target).outcome = .error fault →
    ∃ k, (e.forwardRequest target).sink.bytes = target.bytes ++ input.take k

theorem forwardRequest_of_refused {e : Exchange} (h : 1 < e.channel.loads) (target : Sink) :
    e.forwardRequest target = { outcome := .error .cannotRewind, sink := target, exchange := e } := by
  have hrewind : Channel.rewind e.channel = .error .cannotRewind e.channel := by
    rw [Channel.rewind_eq, if_neg (by omega)]
  unfold forwardRequest onChannel
  rw [hrewind]

theorem forwardRequest_of_rewound {e : Exchange} (h : e.channel.loads ≤ 1) (target : Sink) :
    e.forwardRequest target = deliver Array.size target { e with channel := e.channel.rewound } := by
  have hrewind : Channel.rewind e.channel = .ok () e.channel.rewound := by
    rw [Channel.rewind_eq, if_pos h]
  unfold forwardRequest onChannel
  rw [hrewind]

-- What was handed over is what the channel gave from its first byte on.
theorem forwardsExactly_of_startsOver {e : Exchange} (hn : n ≤ 1) (hloads : e.channel.loads = n)
    (h : e.channel.rewound.StartsOver input script declared) :
    e.ForwardsExactly input script declared n := by
  have hdelivered := forwardRequest_of_rewound (e := e) (by omega)
  have hcopied : ∀ target fault, (e.forwardRequest target).outcome = .error fault →
      (Channel.copyRest target e.channel.rewound).outcome = .error fault := by
    intro target fault herror
    rw [hdelivered] at herror
    exact deliver_error herror
  have hnot : ∀ target, (e.forwardRequest target).outcome ≠ .error .cannotRewind := fun target herror =>
    Channel.faultClass_copyRestWithin (hcopied target _ herror) rfl
  refine ⟨fun target k hok => ?_, fun target => ?_, fun target herror => absurd herror (hnot target),
    fun target fault herror => ?_⟩
  · rw [hdelivered] at hok ⊢
    obtain ⟨handed, hhanded, hsize⟩ := deliver_ok hok
    obtain ⟨hwhole, hsent⟩ := h.rest target handed hhanded
    exact ⟨handed.toList, hsent, hsize, hwhole⟩
  · exact ⟨fun herror => absurd herror (hnot target), fun hlt => absurd hn (by omega)⟩
  · have hfails := h.restFails target fault (hcopied target fault herror)
    rw [hdelivered]
    exact hfails

theorem forwardsExactly_of_refused {e : Exchange} (hn : 1 < n) (hloads : e.channel.loads = n) :
    e.ForwardsExactly input script declared n := by
  have hrefused := forwardRequest_of_refused (e := e) (by omega)
  refine ⟨fun target k hok => ?_, fun target => ?_, fun target _ => ?_, fun target fault _ => ⟨0, ?_⟩⟩
  · rw [hrefused] at hok
    cases hok
  · rw [hrefused]
    exact ⟨fun _ => hn, fun _ => rfl⟩
  · rw [hrefused]
    exact ⟨rfl, rfl⟩
  · rw [hrefused, List.take_zero, List.append_nil]

theorem forwardsExactly_of_refills {e : Exchange}
    (h : (Channel.opened { rest := input, script } sink declared bufferSize).Refills n e.channel) :
    e.ForwardsExactly input script declared n := by
  have hloads : e.channel.loads = n := h.loads_eq.trans (Nat.zero_add n)
  by_cases hn : n ≤ 1
  · exact forwardsExactly_of_startsOver hn hloads (h.startsOver hn)
  · exact forwardsExactly_of_refused (Nat.lt_of_not_le hn) hloads

end Exchange

/-- However a channel is read, it goes back exactly to the first byte of the request or refuses, by the
number of blocks that were read. So a request is forwarded as a whole or not at all, whatever was called
before: for every input, declared length, buffer and behaviour of the streams. -/
theorem rewinds_and_forwards_exactly (input : List UInt8) (script : List ReadEvent) (sink : Sink)
    (declared : Option Nat) :
    (∀ (bufferSize : Nat) (steps : List Channel.ReadStep), ∃ n,
      (Channel.opened { rest := input, script } sink declared bufferSize).Refills n
        (Channel.afterSteps steps (.opened { rest := input, script } sink declared bufferSize)) ∧
      (Channel.afterSteps steps
        (.opened { rest := input, script } sink declared bufferSize)).RewindsExactly
          input script declared n) ∧
    ∀ (config : Config) (calls : List Call), ∃ n,
      (Channel.opened { rest := input, script } sink declared config.bufferSize.toNat).Refills n
        (Session.play calls
          { exchange := .opened config { rest := input, script } sink declared }).2.exchange.channel ∧
      (Session.play calls
        { exchange := .opened config { rest := input, script } sink declared }).2.exchange.ForwardsExactly
          input script declared n := by
  constructor
  · intro bufferSize steps
    obtain ⟨n, hrefills⟩ := Channel.proceeds_afterSteps steps
      (.opened { rest := input, script } sink declared bufferSize)
    exact ⟨n, hrefills, hrefills.rewindsExactly⟩
  · intro config calls
    obtain ⟨n, hrefills⟩ := Channel.kept_proceeds.play calls
      { exchange := .opened config { rest := input, script } sink declared }
    exact ⟨n, hrefills, Exchange.forwardsExactly_of_refills hrefills⟩

/-! ## Behind the header -/

namespace Channel

/-- No second block was read, and `k` bytes can be delivered without one. -/
structure HasAhead (k : Nat) (c : Channel) : Prop where
  loads : c.loads ≤ 1
  ahead : k ≤ c.ahead.length

variable {c d : Channel} {k : Nat}

theorem ends_getByte : Ends (HasAhead (k + 1)) getByte (fun _ => HasAhead k) fun _ _ => False := by
  intro c h
  cases ha : c.ahead with
  | nil =>
    have hlength := h.ahead
    rw [ha] at hlength
    exact absurd hlength (Nat.not_succ_le_zero k)
  | cons b ahead =>
    have hget : getByte c = .ok b { c with behind := b :: c.behind, ahead } := by
      simp only [getByte, takeByte, ha]
    have hlength := h.ahead
    rw [ha, List.length_cons] at hlength
    rw [hget]
    exact ⟨h.loads, Nat.le_of_succ_le_succ hlength⟩

theorem ends_getBytesOnto (n : Nat) (got : List UInt8) :
    Ends (HasAhead (k + n)) (getBytesOnto n got) (fun _ => HasAhead k) fun _ _ => False := by
  induction n generalizing got with
  | zero => exact ends_pure fun _ h => h
  | succ n ih => exact ends_getByte.bind fun b => ih (b :: got)

theorem ends_getUInt16 : Ends (HasAhead (k + 2)) getUInt16 (fun _ => HasAhead k) fun _ _ => False :=
  (ends_getBytesOnto 2 []).bind fun _ => ends_pure fun _ h => h

theorem ends_getUInt32 : Ends (HasAhead (k + 4)) getUInt32 (fun _ => HasAhead k) fun _ _ => False :=
  (ends_getBytesOnto 4 []).bind fun _ => ends_pure fun _ h => h

-- A byte is delivered from the block that has to be read first.
theorem getByte_of_refill {n : Nat} (ha : c.ahead = []) (h : refill c = .ok n d) (hd : d.ahead ≠ []) :
    getByte c = getByte d := by
  obtain ⟨b, e, ht⟩ := takeByte_of_ahead hd
  simp only [getByte, takeByte_of_nil ha, h, ht]

end Channel

namespace Exchange

theorem ends_onChannel {α : Type} {P : Channel → Prop} {Q : α → Channel → Prop}
    {E : Fault → Channel → Prop} {call : Channel.Action α} (h : Ends P call Q E) :
    Ends (fun e => P e.channel) (onChannel call) (fun a e => Q a e.channel)
      fun fault e => E fault e.channel := by
  intro e he
  have hcall := h e.channel he
  unfold onChannel
  cases hc : call e.channel with
  | ok a c =>
    rw [hc] at hcall
    exact hcall
  | error fault c =>
    rw [hc] at hcall
    exact hcall

-- Where the block holds a whole header no other one is read for it.
theorem ends_headerFields : Ends (fun e => e.channel.HasAhead Header.length) headerFields
    (fun _ e => e.channel.HasAhead 0) fun _ _ => False := by
  have hset {k : Nat} {f : Exchange → Header} : Ends (fun e : Exchange => e.channel.HasAhead k)
      (modify fun e => { e with header := f e } : Action Unit) (fun _ e => e.channel.HasAhead k)
      fun _ _ => False :=
    fun _ h => h
  refine (ends_onChannel (Channel.ends_getByte (k := 7))).bind fun _ => hset.bind fun _ => ?_
  refine (ends_onChannel (Channel.ends_getByte (k := 6))).bind fun _ => hset.bind fun _ => ?_
  refine (ends_onChannel (Channel.ends_getUInt16 (k := 4))).bind fun _ => hset.bind fun _ => ?_
  exact (ends_onChannel (Channel.ends_getUInt32 (k := 0))).bind fun _ => hset

theorem headerFields_of_refill {e : Exchange} {c : Channel} {n : Nat} (ha : e.channel.ahead = [])
    (h : Channel.refill e.channel = .ok n c) (hc : c.ahead ≠ []) :
    headerFields e = headerFields { e with channel := c } := by
  refine bind_congr_start ?_ _
  unfold onChannel
  rw [Channel.getByte_of_refill ha h hc]

/-- The first block that is read from a fresh channel will hold a whole header: there is room for it, and the
first call on the input gives as much. -/
def HeaderAtOnce (config : Config) (script : List ReadEvent) : Prop :=
  Header.length ≤ config.bufferSize.toNat ∧ ∀ k ∈ Source.firstLimit script, Header.length ≤ k

instance (config : Config) (script : List ReadEvent) : Decidable (HeaderAtOnce config script) :=
  inferInstanceAs (Decidable (_ ∧ _))

-- The first block of an input that is longer than a header.
theorem refill_opened (config : Config) (hlength : Header.length < input.length)
    (hreads : ({ rest := input, script } : Source).Steady) (sink : Sink) :
    ∃ k c, (Channel.opened { rest := input, script } sink (some input.length)
        config.bufferSize.toNat).Refills 1 c ∧
      Channel.refill (.opened { rest := input, script } sink (some input.length)
        config.bufferSize.toNat) = .ok k c ∧
      c.behind = [] ∧ c.ahead ≠ [] ∧
      (Header.length ≤ c.ahead.length ↔ HeaderAtOnce config script) := by
  have hpos : Header.length = 8 := rfl
  have hsteady := Channel.steady_opened hreads sink (some input.length) config.bufferSize.toNat
  have huntaken : input.take input.length ≠ [] := by
    rw [List.take_length]
    exact List.ne_nil_of_length_pos (by omega)
  have hx : (Channel.opened { rest := input, script } sink (some input.length)
      config.bufferSize.toNat).exhausted = false := by
    simp only [Channel.exhausted, Channel.opened, Bool.false_or, beq_eq_false_iff_ne, ne_eq,
      Option.some.injEq]
    omega
  obtain ⟨k, c, hrefill, hne⟩ := hsteady.refill huntaken
  obtain ⟨s, bytes, hread, rfl, -⟩ := Channel.refill_loaded hx hrefill
  refine ⟨k, _, .refill .start hx hrefill, hrefill, rfl, hne, ?_⟩
  -- The call on the input gives what there is, what was asked for and what its limit allows.
  obtain ⟨bytes', s', hread', hlong⟩ := hreads.read_length (min input.length (max config.bufferSize.toNat 1))
  cases hread.symm.trans hread'
  show Header.length ≤ bytes.length ↔ _
  have hroom : Header.length ≤ min input.length (max config.bufferSize.toNat 1) ↔
      Header.length ≤ config.bufferSize.toNat := by omega
  rw [hlong, HeaderAtOnce, hroom]
  exact and_iff_right (Nat.le_of_lt hlength)

-- When the header was read the channel stands behind it.
theorem parseHeader_opened (config : Config) (hlength : Header.length < input.length)
    (hreads : ({ rest := input, script } : Source).Steady) (sink : Sink) :
    ∃ e, parseHeader (.opened config { rest := input, script } sink (some input.length)) = .ok () e ∧
      (Channel.opened { rest := input, script } sink (some input.length)
        config.bufferSize.toNat).Reads e.channel ∧
      e.channel.source.taken = Header.length + e.channel.ahead.length := by
  have henough : (opened config { rest := input, script } sink (some input.length)).DeclaresEnough := by
    rintro n ⟨⟩
    exact hlength
  have hupcoming : (opened config { rest := input, script } sink (some input.length)).channel.upcoming =
      input := List.take_length
  have hsteady := Channel.steady_opened hreads sink (some input.length) config.bufferSize.toNat
  obtain ⟨h, rest, hsplit⟩ := Header.exists_of_length (Nat.le_of_lt hlength)
  obtain ⟨c, hheader, hfields, hrest⟩ := headerFields_of_bytes hsteady (hupcoming.trans hsplit)
  refine ⟨_, (parseHeader_of_enough henough).trans hheader, hfields, ?_⟩
  have htaken : c.source.taken + c.untaken.length = 0 + input.length := by
    rw [← congrArg List.length hupcoming]
    exact hfields.taken
  have hleft : c.ahead.length + c.untaken.length = rest.length := by
    rw [← hrest, Channel.upcoming, List.length_append]
  have hinput := congrArg List.length hsplit
  rw [List.length_append, Header.length_bytes] at hinput
  show c.source.taken = Header.length + c.ahead.length
  omega

-- The first block is left only where it does not hold the header.
theorem loads_parseHeader (config : Config) (hlength : Header.length < input.length)
    (hreads : ({ rest := input, script } : Source).Steady) (sink : Sink) {e : Exchange}
    (h : parseHeader (.opened config { rest := input, script } sink (some input.length)) = .ok () e)
    (htaken : e.channel.source.taken = Header.length + e.channel.ahead.length) :
    e.channel.loads ≤ 1 ↔ HeaderAtOnce config script := by
  obtain ⟨k, c, hfirst, hrefill, hbehind, hne, hheld⟩ := refill_opened config hlength hreads sink
  rw [parseHeader_of_enough (enough_of_parseHeader h), headerFields_of_refill rfl hrefill hne] at h
  have hloads : c.loads = 0 + 1 := hfirst.loads_eq
  rw [← hheld]
  constructor
  · intro hone
    obtain ⟨m, hmore⟩ := Channel.kept_proceeds.headerFields.ok h
    have hmore : c.Refills m e.channel := hmore
    have hm : m = 0 := by
      have := hmore.loads_eq
      omega
    subst hm
    -- All that was taken is in the first block, and the header is a part of it.
    obtain ⟨earlier, hloaded⟩ := (hfirst.trans hmore).loaded
    have hall := hloaded.length_block_iff.mpr (Nat.le_refl 1)
    rw [hmore.block_eq, Channel.block, hbehind, htaken] at hall
    simp only [List.reverse_nil, List.nil_append] at hall
    omega
  · intro hahead
    exact (ends_headerFields.ok (s := { opened config _ sink _ with channel := c })
      ⟨Nat.le_of_eq hloads, hahead⟩ h).loads

/-- Behind the header alone a request is forwarded as a whole if its header was read at once, and else it is
refused. -/
theorem forwardRequest_after_header (config : Config) (hlength : Header.length < input.length)
    (hreads : ({ rest := input, script } : Source).Steady) (sink : Sink) :
    ∃ e, parseHeader (.opened config { rest := input, script } sink (some input.length)) = .ok () e ∧
      ∀ target : Sink, target.Steady →
        (HeaderAtOnce config script → (e.forwardRequest target).outcome = .ok input.length ∧
          (e.forwardRequest target).sink.bytes = target.bytes ++ input) ∧
        (¬HeaderAtOnce config script → e.forwardRequest target =
          { outcome := .error .cannotRewind, sink := target, exchange := e }) := by
  obtain ⟨e, hparse, hfields, htaken⟩ := parseHeader_opened config hlength hreads sink
  have hloads := loads_parseHeader config hlength hreads sink hparse htaken
  refine ⟨e, hparse, fun target htarget => ⟨fun hheader => ?_, fun hheader => ?_⟩⟩
  · have hone := hloads.mpr hheader
    have hrewind : Channel.rewind e.channel = .ok () e.channel.rewound := by
      rw [Channel.rewind_eq, if_pos hone]
    have hrewound := hfields.trans (Channel.keeps_rewind.ok hrewind)
    have hsteady := hrewound.steady (Channel.steady_opened hreads sink _ _)
    have hwhole : e.channel.rewound.isShort = false :=
      hrewound.isShort.trans (Channel.whole_opened sink (fun n hn => by cases hn; exact Nat.le_refl _) _)
    obtain ⟨k, hok⟩ : ∃ k, (e.forwardRequest target).outcome = .ok k := by
      rw [forwardRequest_of_rewound hone, deliver, (hsteady.copyRest hwhole htarget).outcome]
      exact ⟨_, rfl⟩
    obtain ⟨m, hrefills⟩ := Channel.kept_proceeds.parseHeader.ok hparse
    obtain ⟨bytes, hsent, hbytes, hall⟩ := (forwardsExactly_of_refills hrefills).whole target k hok
    have hlast : bytes.length = input.length := hall.length _ rfl
    have hinput : bytes = input := by
      rw [hall.fromFirst, hlast, List.take_length]
    rw [hok, ← hbytes, hlast, hsent, hinput]
    exact ⟨rfl, rfl⟩
  · exact forwardRequest_of_refused (Nat.lt_of_not_le fun hone => hheader (hloads.mp hone)) target

/-- A header and the end tag. -/
def shortest : List UInt8 :=
  [1, 1, 0, 11, 0, 0, 0, 7, 3]

-- An input that gives the header at once, and the end tag later.
theorem shortest_forwarded :
    HeaderAtOnce {} [.interrupted, .upTo 8] ∧
    ∃ e, parseHeader (.opened {} { rest := shortest, script := [.interrupted, .upTo 8] } {}
        (some shortest.length)) = .ok () e ∧
      (e.forwardRequest {}).outcome = .ok 9 ∧ (e.forwardRequest {}).sink.bytes = shortest := by
  have hreads : ({ rest := shortest, script := [.interrupted, .upTo 8] } : Source).Steady := by decide
  have hsink : ({} : Sink).Steady := by decide
  have hheader : HeaderAtOnce {} [.interrupted, .upTo 8] := by decide
  have hlength : Header.length < shortest.length := by decide
  obtain ⟨e, hparse, hforward⟩ := forwardRequest_after_header {} hlength hreads {}
  exact ⟨hheader, e, hparse, (hforward {} hsink).1 hheader⟩

/-- Not every request can be forwarded behind its header, however it is split. -/
theorem not_forwarded_however_split :
    ¬∀ (config : Config) (input : List UInt8) (script : List ReadEvent) (target : Sink),
      Header.length < input.length → Header.length ≤ config.bufferSize.toNat →
      ({ rest := input, script } : Source).Steady → target.Steady →
      ∃ e, parseHeader (.opened config { rest := input, script } {} (some input.length)) = .ok () e ∧
        (e.forwardRequest target).outcome = .ok input.length ∧
        (e.forwardRequest target).sink.bytes = target.bytes ++ input := by
  intro h
  obtain ⟨e, hparse, hok, -⟩ := h {} shortest [.upTo 1] {} (by decide) (by decide) (by decide) (by decide)
  -- Where the input gives one byte first the header takes a second block.
  have hloads : 1 < (final (parseHeader (.opened {} { rest := shortest, script := [.upTo 1] } {}
      (some shortest.length)))).channel.loads := by
    decide +kernel
  rw [hparse] at hloads
  rw [forwardRequest_of_refused (e := e) hloads] at hok
  cases hok

end Exchange

end Ipp
