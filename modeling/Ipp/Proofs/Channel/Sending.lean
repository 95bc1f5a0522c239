import Ipp.Proofs.Channel.Reading

/-!
# What a channel sends

Bytes that are put reach the output one after the other, whenever the buffer is sent. `produced` are the
bytes that were put so far. A call that succeeds adds its bytes to them (`putBytes_ok`, `copyFile_ok`),
and while the channel is open none fails (`Open.putBytes`, `Open.copyFile`, `Open.flush`).
-/

namespace Ipp.Channel

open Calls

/-- The bytes that were put, whether they are sent already or still pending. -/
def produced (c : Channel) : List UInt8 :=
  c.sink.bytes ++ c.pending.toList

theorem produced_of_reads {c d : Channel} (h : c.Reads d) : d.produced = c.produced := by
  rw [produced, produced, h.sink, h.pending]

/-- The output does not fail, there is room for another byte, and nothing ran over the buffer. -/
structure Open (c : Channel) : Prop where
  sink : c.sink.Steady
  room : c.pending.size < c.size
  guardByte : c.guardByte = intactGuard

theorem open_opened (source : Source) {sink : Sink} (h : sink.Steady) (declared : Option Nat)
    (bufferSize : Nat) : (opened source sink declared bufferSize).Open :=
  ⟨h, (opened source sink declared bufferSize).size_pos, rfl⟩

theorem Open.of_reads {c d : Channel} (h : c.Open) (hr : c.Reads d) : d.Open where
  sink := by rw [hr.sink]; exact h.sink
  room := by rw [hr.pending, hr.size]; exact h.room
  guardByte := hr.guardByte.trans h.guardByte

/-- `d` is reached from `c` by sending. The read side stays as it is. -/
structure Sends (c d : Channel) : Prop where
  same : ∃ sink pending guardByte events, d = { c with sink, pending, guardByte, events }
  closings : d.closings = c.closings
  isOpen : c.Open → d.Open

theorem Sends.refl (c : Channel) : c.Sends c :=
  ⟨⟨c.sink, c.pending, c.guardByte, c.events, rfl⟩, rfl, id⟩

theorem Sends.trans {c d e : Channel} (h : c.Sends d) (h' : d.Sends e) : c.Sends e where
  same := by
    rcases h.same with ⟨_, _, _, _, rfl⟩
    rcases h'.same with ⟨sink, pending, guardByte, events, rfl⟩
    exact ⟨sink, pending, guardByte, events, rfl⟩
  closings := h'.closings.trans h.closings
  isOpen := h'.isOpen ∘ h.isOpen

/-! ## Sending what is pending -/

/-- The channel when all that is pending was accepted by the output. -/
def sentTo (c : Channel) (sink : Sink) : Channel :=
  { c with sink, pending := #[], events := .sentPending c.pending.size :: c.events }

theorem send_ok {c d : Channel} (h : send c = .ok () d) :
    ∃ sink, d = c.sentTo sink ∧ sink.bytes = c.produced ∧ (c.sink.Steady → sink.Steady) := by
  rw [send] at h
  split at h
  · next sink ho =>
    cases h
    obtain ⟨hbytes, hscript, hflush⟩ := Sink.offer_ok ho
    exact ⟨sink, rfl, hbytes, fun hs => hs.of_suffix hscript hflush⟩
  · cases h

theorem send_of_steady {c : Channel} (h : c.sink.Steady) : ∃ d, send c = .ok () d := by
  obtain ⟨sink, ho, -, -⟩ := h.offer c.pending.toList
  refine ⟨c.sentTo sink, ?_⟩
  rw [send, ho]
  rfl

theorem sends_sentTo {c : Channel} {sink : Sink} (h : c.sink.Steady → sink.Steady) :
    c.Sends (c.sentTo sink) :=
  ⟨⟨sink, #[], c.guardByte, _, rfl⟩, rfl, fun ho => ⟨h ho.sink, c.size_pos, ho.guardByte⟩⟩

theorem produced_sentTo (c : Channel) (sink : Sink) : (c.sentTo sink).produced = sink.bytes :=
  List.append_nil _

theorem flush_ok {c d : Channel} (h : flush c = .ok () d) :
    c.Sends d ∧ d.sink.bytes = c.produced ∧ d.pending = #[] := by
  obtain ⟨⟨⟩, e, hsend, h⟩ := bind_eq_ok.mp h
  obtain ⟨sink, rfl, hbytes, hsteady⟩ := send_ok hsend
  cases hf : (c.sentTo sink).sink.flush with
  | mk outcome sink' =>
    have hflushed : sink' = sink.flushed := Sink.eq_flushed_of_flush hf
    cases outcome with
    | error text =>
      rw [hf] at h
      cases h
    | ok done =>
      rw [hf] at h
      cases h
      rw [hflushed]
      have hsends : c.Sends (c.sentTo sink.flushed) := sends_sentTo fun hs => (hsteady hs).flushed
      exact ⟨hsends, hbytes, rfl⟩

-- Over a steady output also what ran over the buffer is sent.
theorem flush_of_steady {c : Channel} (h : c.sink.Steady) : ∃ d, flush c = .ok () d := by
  obtain ⟨d, hd⟩ := send_of_steady h
  obtain ⟨sink, rfl, -, hsteady⟩ := send_ok hd
  refine ⟨c.sentTo sink.flushed, ?_⟩
  have hf : (c.sentTo sink).sink.flush = (.ok (), sink.flushed) := (hsteady h).flush_eq
  unfold Channel.flush
  refine (bind_of_ok hd _).trans ?_
  simp only [hf]
  rfl

theorem Open.flush {c : Channel} (h : c.Open) : ∃ d, Channel.flush c = .ok () d :=
  flush_of_steady h.sink

/-! ## Bytes -/

/-- The channel with one more byte in its buffer. -/
def pushed (c : Channel) (b : UInt8) : Channel :=
  { c with
    pending := c.pending.push b
    guardByte := if c.pending.size = c.size then b else c.guardByte }

theorem putByte_eq (b : UInt8) (c : Channel) :
    putByte b c =
      if c.size < c.pending.size then .error .pastGuard c
      else if (c.pushed b).pending.size = c.size then send (c.pushed b) else .ok () (c.pushed b) :=
  rfl

theorem produced_pushed (c : Channel) (b : UInt8) : (c.pushed b).produced = c.produced ++ [b] := by
  rw [produced, produced, pushed, Array.toList_push, List.append_assoc]

-- While there is room nothing runs over the buffer.
theorem Open.guardByte_pushed {c : Channel} (h : c.Open) (b : UInt8) :
    (c.pushed b).guardByte = intactGuard := by
  rw [pushed, if_neg (Nat.ne_of_lt h.room), h.guardByte]

theorem putByte_ok {b : UInt8} {c d : Channel} (h : putByte b c = .ok () d) :
    c.Sends d ∧ d.produced = c.produced ++ [b] := by
  rw [putByte_eq] at h
  by_cases hover : c.size < c.pending.size
  · rw [if_pos hover] at h
    cases h
  rw [if_neg hover] at h
  by_cases hfull : (c.pushed b).pending.size = c.size
  · rw [if_pos hfull] at h
    obtain ⟨sink, rfl, hbytes, hsteady⟩ := send_ok h
    refine ⟨⟨⟨sink, #[], _, _, rfl⟩, rfl, fun ho => ?_⟩, ?_⟩
    · exact ⟨hsteady ho.sink, c.size_pos, ho.guardByte_pushed b⟩
    · rw [produced_sentTo, hbytes, produced_pushed]
  · rw [if_neg hfull] at h
    cases h
    refine ⟨⟨⟨c.sink, _, _, c.events, rfl⟩, rfl, fun ho => ⟨ho.sink, ?_, ho.guardByte_pushed b⟩⟩,
      produced_pushed c b⟩
    have hroom := ho.room
    have hsize : (c.pushed b).pending.size = c.pending.size + 1 := Array.size_push b
    show (c.pushed b).pending.size < c.size
    omega

theorem Open.putByte {c : Channel} (h : c.Open) (b : UInt8) :
    ∃ d, Channel.putByte b c = .ok () d := by
  have hroom := h.room
  rw [putByte_eq, if_neg (Nat.not_lt.mpr (Nat.le_of_lt hroom))]
  by_cases hfull : (c.pushed b).pending.size = c.size
  · rw [if_pos hfull]
    exact send_of_steady h.sink
  · rw [if_neg hfull]
    exact ⟨_, rfl⟩

-- The bytes put come behind those before.
theorem putBytes_ok {bytes : List UInt8} {c d : Channel} (h : putBytes bytes c = .ok () d) :
    c.Sends d ∧ d.produced = c.produced ++ bytes := by
  induction bytes generalizing c with
  | nil =>
    cases h
    exact ⟨Sends.refl _, (List.append_nil _).symm⟩
  | cons b bytes ih =>
    obtain ⟨⟨⟩, e, hb, h⟩ := bind_eq_ok.mp h
    obtain ⟨hsends, hp⟩ := putByte_ok hb
    obtain ⟨hsends', hp'⟩ := ih h
    refine ⟨hsends.trans hsends', ?_⟩
    rw [hp', hp, List.append_assoc, List.singleton_append]

theorem Open.putBytes {c : Channel} (h : c.Open) (bytes : List UInt8) :
    ∃ d, Channel.putBytes bytes c = .ok () d := by
  induction bytes generalizing c with
  | nil => exact ⟨c, rfl⟩
  | cons b bytes ih =>
    obtain ⟨e, he⟩ := h.putByte b
    obtain ⟨d, hd⟩ := ih ((putByte_ok he).1.isOpen h)
    refine ⟨d, ?_⟩
    rw [Channel.putBytes, bind_of_ok he, hd]

/-! ## Files -/

theorem sendThrough_ok {bytes : List UInt8} {c d : Channel} (h : sendThrough bytes c = .ok () d) :
    ∃ sink, d = { c with sink } ∧ sink.bytes = c.sink.bytes ++ bytes ∧
      (c.sink.Steady → sink.Steady) := by
  rw [sendThrough] at h
  split at h
  · cases h
  · next sink ho =>
    cases h
    obtain ⟨hbytes, hscript, hflush⟩ := Sink.offer_ok ho
    exact ⟨sink, rfl, hbytes, fun hs => hs.of_suffix hscript hflush⟩

theorem sendThrough_of_steady {c : Channel} (h : c.sink.Steady) (bytes : List UInt8) :
    ∃ d, sendThrough bytes c = .ok () d := by
  obtain ⟨sink, ho, -, -⟩ := h.offer bytes
  refine ⟨{ c with sink }, ?_⟩
  rw [sendThrough, ho]

theorem sendBlocksWithin_ok {bound : Nat} {bytes : List UInt8} {c d : Channel}
    (hbound : bytes.length ≤ bound * fileBlock) (h : sendBlocksWithin bound bytes c = .ok () d) :
    ∃ sink, d = { c with sink } ∧ sink.bytes = c.sink.bytes ++ bytes ∧
      (c.sink.Steady → sink.Steady) := by
  induction bound generalizing bytes c with
  | zero =>
    cases h
    have hnil : bytes = [] := List.length_eq_zero_iff.mp (by omega)
    exact ⟨_, rfl, by rw [hnil, List.append_nil], id⟩
  | succ bound ih =>
    obtain ⟨⟨⟩, e, hblock, h⟩ := bind_eq_ok.mp h
    obtain ⟨sink, rfl, hbytes, hsteady⟩ := sendThrough_ok hblock
    have hrest : (bytes.drop fileBlock).length ≤ bound * fileBlock := by
      rw [List.length_drop, Nat.sub_le_iff_le_add, ← Nat.succ_mul]
      exact hbound
    obtain ⟨sink', rfl, hbytes', hsteady'⟩ := ih hrest h
    refine ⟨sink', rfl, ?_, fun hs => hsteady' (hsteady hs)⟩
    rw [hbytes', hbytes, List.append_assoc, List.take_append_drop]

theorem sendBlocksWithin_of_steady {c : Channel} (h : c.sink.Steady) (bound : Nat)
    (bytes : List UInt8) : ∃ d, sendBlocksWithin bound bytes c = .ok () d := by
  induction bound generalizing bytes c with
  | zero => exact ⟨c, rfl⟩
  | succ bound ih =>
    obtain ⟨e, he⟩ := sendThrough_of_steady h (bytes.take fileBlock)
    obtain ⟨sink, rfl, -, hsteady⟩ := sendThrough_ok he
    obtain ⟨d, hd⟩ := ih (c := { c with sink }) (hsteady h) (bytes.drop fileBlock)
    refine ⟨d, ?_⟩
    rw [sendBlocksWithin, bind_of_ok he, hd]

theorem copyFile_ok {content : List UInt8} {c d : Channel} (h : copyFile content c = .ok () d) :
    c.Sends d ∧ d.produced = c.produced ++ content := by
  obtain ⟨⟨⟩, e, hsend, h⟩ := bind_eq_ok.mp h
  obtain ⟨sink, rfl, hbytes, hsteady⟩ := send_ok hsend
  have hbound : content.length ≤ (content.length / fileBlock + 1) * fileBlock := by
    rw [fileBlock]
    omega
  obtain ⟨sink', rfl, hbytes', hsteady'⟩ := sendBlocksWithin_ok hbound h
  have hs : c.Sends (c.sentTo sink') := sends_sentTo (hsteady' ∘ hsteady)
  refine ⟨hs, (produced_sentTo c sink').trans ?_⟩
  rw [hbytes', ← hbytes]
  rfl

theorem Open.copyFile {c : Channel} (h : c.Open) (content : List UInt8) :
    ∃ d, Channel.copyFile content c = .ok () d := by
  obtain ⟨e, he⟩ := send_of_steady h.sink
  obtain ⟨sink, rfl, -, hsteady⟩ := send_ok he
  have hs : (c.sentTo sink).sink.Steady := hsteady h.sink
  obtain ⟨d, hd⟩ := sendBlocksWithin_of_steady hs (content.length / fileBlock + 1) content
  refine ⟨d, ?_⟩
  rw [Channel.copyFile, bind_of_ok he, hd]

end Ipp.Channel
