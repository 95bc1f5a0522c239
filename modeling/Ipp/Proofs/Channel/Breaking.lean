import Ipp.Proofs.Channel.Course
import Ipp.Proofs.Request.Faults

/-!
# Sending that breaks off

When the output refuses a part of the buffer, all of it stays pending, with the part that was accepted in
it: `BrokeOff` says where the output stands then. `Delivers` is what every call that puts bytes does, from
a channel that has room for one more byte.
-/

namespace Ipp

/-- The fault of a buffer that was overrun. -/
def Fault.isOverrun : Fault → Bool
  | .bufferOverrun _ | .pastGuard => true
  | _ => false

-- It is a fault of the caller.
theorem Fault.isOverrun_eq_false {fault : Fault} (h : fault.faultClass ≠ .contract) :
    fault.isOverrun = false := by
  cases fault <;> first | rfl | exact absurd rfl h

namespace Channel

open Calls

/-! ## Where the output stands -/

/-- Behind `done` the pending bytes come next, and the output has accepted the first `k` of them already.
All of these are among the bytes in `total`. -/
structure Trails (total done : List UInt8) (k : Nat) (c : Channel) : Prop where
  sent : c.sink.bytes = done ++ c.pending.toList.take k
  next : done ++ c.pending.toList <+: total

variable {total more done : List UInt8} {k : Nat} {c d : Channel}

theorem trails_produced (c : Channel) : c.Trails c.produced c.sink.bytes 0 := by
  refine ⟨?_, List.prefix_refl _⟩
  rw [List.take_zero, List.append_nil]

theorem Trails.append (h : c.Trails total done k) (more : List UInt8) :
    c.Trails (total ++ more) done k :=
  ⟨h.sent, h.next.trans (List.prefix_append total more)⟩

theorem Trails.of_reads (h : c.Trails total done k) (hr : c.Reads d) : d.Trails total done k := by
  constructor
  · rw [hr.sink, hr.pending]
    exact h.sent
  · rw [hr.pending]
    exact h.next

-- Whatever was accepted is a part of the whole, once.
theorem Trails.bytes_prefix (h : c.Trails total done k) : c.sink.bytes <+: total := by
  rw [h.sent]
  have htake : done ++ c.pending.toList.take k <+: done ++ c.pending.toList :=
    (List.prefix_append_right_inj done).mpr (List.take_prefix k _)
  exact htake.trans h.next

/-- A call by which the bytes in `total` would have been put has failed with this fault, on this channel. -/
structure BrokeOff (total : List UInt8) (fault : Fault) (c : Channel) : Prop where
  fits : c.pending.size ≤ c.size
  innocent : fault.isOverrun = false
  -- Some pending bytes are accepted already only where it was the output that failed.
  trails : ∃ done k, c.Trails total done k ∧ (k = 0 ∨ ∃ text, fault = .io text)

theorem BrokeOff.append {fault : Fault} (h : c.BrokeOff total fault) (more : List UInt8) :
    c.BrokeOff (total ++ more) fault := by
  obtain ⟨done, k, htrails, hk⟩ := h.trails
  exact ⟨h.fits, h.innocent, done, k, htrails.append more, hk⟩

-- Where the output did not fail all that was produced is accepted or pending, once.
theorem brokeOff_of_room {fault : Fault} (hroom : c.HasRoom) (hfault : fault.isOverrun = false) :
    c.BrokeOff c.produced fault :=
  ⟨Nat.le_of_lt hroom, hfault, c.sink.bytes, 0, c.trails_produced, .inl rfl⟩

/-! ## Calls that put bytes -/

/-- From a channel with room, the call puts `bytes` and leaves room; or it breaks off. -/
structure Delivers (bytes : List UInt8) (x : Action Unit) : Prop where
  room : KeepsRoom x
  ok : ∀ {c d : Channel}, x c = .ok () d → d.produced = c.produced ++ bytes
  error : ∀ {c d : Channel} {fault : Fault}, c.HasRoom → x c = .error fault d →
    d.BrokeOff (c.produced ++ bytes) fault

theorem Delivers.hasRoom {bytes : List UInt8} {x : Action Unit} (h : Delivers bytes x) (hc : c.HasRoom)
    (hx : x c = .ok () d) : d.HasRoom :=
  ((h.room c).ok ⟨.refl c, hc⟩ hx).2

theorem delivers_pure : Delivers [] (pure ()) where
  room := keepsRoom_pure
  ok h := by
    cases h
    exact (List.append_nil _).symm
  error _ h := nomatch h

theorem delivers_throw {fault : Fault} (hfault : fault.isOverrun = false) :
    Delivers [] (throw fault) where
  room := keepsRoom_throw fault
  ok h := nomatch h
  error hroom h := by
    cases h
    rw [List.append_nil]
    exact brokeOff_of_room hroom hfault

theorem Delivers.bind {bytes bytes' : List UInt8} {x y : Action Unit} (hx : Delivers bytes x)
    (hy : Delivers bytes' y) : Delivers (bytes ++ bytes') (do x; y) where
  room := hx.room.bind hy.room
  ok {c d} h := by
    obtain ⟨⟨⟩, e, he, hd⟩ := bind_eq_ok.mp h
    rw [hy.ok hd, hx.ok he, List.append_assoc]
  error {c d fault} hroom h := by
    cases he : x c with
    | ok a e =>
      rw [bind_of_ok he] at h
      have hbroke := hy.error (hx.hasRoom hroom he) h
      rw [hx.ok he, List.append_assoc] at hbroke
      exact hbroke
    | error fault' e =>
      rw [bind_of_error he] at h
      cases h
      rw [← List.append_assoc]
      exact (hx.error hroom he).append bytes'

/-! ### The buffer -/

-- The buffer stays as it is, and the output has a part of it.
theorem send_error {fault : Fault} (h : send c = .error fault d) :
    (∃ text, fault = .io text) ∧ ∃ sink k, d = { c with sink } ∧
      sink.bytes = c.sink.bytes ++ c.pending.toList.take k := by
  unfold send at h
  cases ho : c.sink.offer c.pending.toList with
  | mk outcome sink =>
    rw [ho] at h
    cases outcome with
    | ok done => cases h
    | error refusal =>
      cases h
      obtain ⟨k, -, hbytes⟩ := Sink.offer_error ho
      refine ⟨?_, sink, k, rfl, hbytes⟩
      cases refusal with
      | tookNone => exact ⟨_, rfl⟩
      | fault text => exact ⟨text, rfl⟩

-- Then as much was put before as the buffer holds.
theorem send_brokeOff {fault : Fault} (hfits : c.pending.size ≤ c.size)
    (h : send c = .error fault d) : d.BrokeOff c.produced fault := by
  obtain ⟨⟨text, rfl⟩, sink, k, rfl, hbytes⟩ := send_error h
  exact ⟨hfits, rfl, c.sink.bytes, k, ⟨hbytes, List.prefix_refl _⟩, .inr ⟨text, rfl⟩⟩

theorem flush_of_error {fault : Fault} (h : send c = .error fault d) : flush c = .error fault d :=
  bind_of_error h _

theorem flush_of_ok {e : Channel} (h : send c = .ok () e) : flush c =
    match e.sink.flush with
    | (.ok (), sink) => .ok () { e with sink }
    | (.error text, sink) => .error (.io text) { e with sink } :=
  bind_of_ok h _

-- An output that fails to flush has accepted everything before.
theorem delivers_flush : Delivers [] flush where
  room := keepsRoom_flush
  ok h := by
    obtain ⟨-, hbytes, hpending⟩ := flush_ok h
    rw [produced, hbytes, hpending]
  error {c d fault} hroom h := by
    rw [List.append_nil]
    cases hsend : send c with
    | error fault' e =>
      rw [flush_of_error hsend] at h
      cases h
      exact send_brokeOff (Nat.le_of_lt hroom) hsend
    | ok a e =>
      obtain ⟨sink, rfl, hbytes, -⟩ := send_ok hsend
      cases hf : (c.sentTo sink).sink.flush with
      | mk outcome sink' =>
        rw [flush_of_ok hsend, hf] at h
        have hsame := Sink.bytes_flush hf
        cases outcome with
        | ok a => cases h
        | error text =>
          cases h
          refine ⟨Nat.zero_le _, rfl, c.produced, 0, ⟨?_, ?_⟩, .inl rfl⟩
          · rw [← hbytes]
            exact hsame.trans (List.append_nil _).symm
          · exact ⟨[], (List.append_nil _).trans (List.append_nil _)⟩

theorem delivers_putByte (b : UInt8) : Delivers [b] (putByte b) where
  room := keepsRoom_putByte b
  ok h := (putByte_ok h).2
  error {c d fault} hroom h := by
    have hover : ¬c.size < c.pending.size := Nat.not_lt.mpr (Nat.le_of_lt hroom)
    rw [putByte_eq, if_neg hover] at h
    split at h
    · next hfull =>
      rw [← produced_pushed]
      exact send_brokeOff (Nat.le_of_eq hfull) h
    · cases h

theorem delivers_putBytes (bytes : List UInt8) : Delivers bytes (putBytes bytes) := by
  induction bytes with
  | nil => exact delivers_pure
  | cons b bytes ih => exact (delivers_putByte b).bind ih

/-! ### Files -/

theorem sendThrough_error {bytes : List UInt8} {fault : Fault}
    (h : sendThrough bytes c = .error fault d) :
    (∃ text, fault = .io text) ∧ ∃ sink k, d = { c with sink } ∧
      sink.bytes = c.sink.bytes ++ bytes.take k := by
  unfold sendThrough at h
  cases ho : c.sink.offer bytes with
  | mk outcome sink =>
    rw [ho] at h
    cases outcome with
    | ok done => cases h
    | error refusal =>
      cases h
      obtain ⟨k, -, hbytes⟩ := Sink.offer_error ho
      refine ⟨?_, sink, k, rfl, hbytes⟩
      cases refusal with
      | tookNone => exact ⟨_, rfl⟩
      | fault text => exact ⟨text, rfl⟩

theorem sendBlocksWithin_error {bound : Nat} {bytes : List UInt8} {fault : Fault}
    (h : sendBlocksWithin bound bytes c = .error fault d) :
    (∃ text, fault = .io text) ∧ ∃ sink k, d = { c with sink } ∧
      sink.bytes = c.sink.bytes ++ bytes.take k := by
  induction bound generalizing bytes c with
  | zero => cases h
  | succ bound ih =>
    unfold sendBlocksWithin at h
    cases hblock : sendThrough (bytes.take fileBlock) c with
    | error fault' e =>
      rw [bind_of_error hblock] at h
      cases h
      obtain ⟨hfault, sink, k, rfl, hbytes⟩ := sendThrough_error hblock
      refine ⟨hfault, sink, min k fileBlock, rfl, ?_⟩
      rw [hbytes, List.take_take]
    | ok a e =>
      rw [bind_of_ok hblock] at h
      obtain ⟨sink, rfl, hbytes, -⟩ := sendThrough_ok hblock
      obtain ⟨hfault, sink', k, rfl, hbytes'⟩ := ih h
      refine ⟨hfault, sink', fileBlock + k, rfl, ?_⟩
      rw [hbytes', hbytes, List.append_assoc, List.take_add]

-- Nothing is pending while a file is sent, so that nothing can be sent again.
theorem delivers_copyFile (content : List UInt8) : Delivers content (copyFile content) where
  room := keepsRoom_copyFile content
  ok h := (copyFile_ok h).2
  error {c d fault} hroom h := by
    unfold copyFile at h
    cases hsend : send c with
    | error fault' e =>
      rw [bind_of_error hsend] at h
      cases h
      exact (send_brokeOff (Nat.le_of_lt hroom) hsend).append content
    | ok a e =>
      rw [bind_of_ok hsend] at h
      obtain ⟨sink, rfl, hbytes, -⟩ := send_ok hsend
      obtain ⟨⟨text, rfl⟩, sink', k, rfl, hbytes'⟩ := sendBlocksWithin_error h
      refine ⟨Nat.zero_le _, rfl, c.produced ++ content.take k, 0, ⟨?_, ?_⟩, .inl rfl⟩
      · rw [← hbytes]
        exact hbytes'.trans (List.append_nil _).symm
      · show c.produced ++ content.take k ++ [] <+: c.produced ++ content
        rw [List.append_nil]
        exact (List.prefix_append_right_inj _).mpr (List.take_prefix k content)

/-! ## The end -/

theorem keeps_refill : Keeps Reads refill := by
  refine keeps_of_cases (fun {c d n} h => ?_) fun h => (refill_error h).1
  unfold refill at h
  split at h
  · cases h
    exact .refl c
  · next hx =>
    split at h
    · cases h
    · next bytes s hread =>
      split at h
      · cases h
      · next hk =>
        cases h
        exact reads_loaded (eq_false_of_ne_true hx) hread (eq_false_of_ne_true hk)

-- What reading a block and dropping it keep is kept by dropping them all.
theorem keeps_drainWithin_of {R : Channel → Channel → Prop} (hr : ∀ c, R c c)
    (ht : ∀ {c d e}, R c d → R d e → R c e) (hrefill : Keeps R refill) (hskip : ∀ c : Channel, R c c.skipBlock)
    (bound : Nat) : Keeps R (drainWithin bound) := by
  induction bound with
  | zero => exact keeps_pure hr ()
  | succ bound ih =>
    have hskipped : Keeps R (modify skipBlock : Action PUnit) := keeps_modify hskip
    exact keeps_get_bind fun c => keeps_ite (keeps_pure hr ())
      (hrefill.bind ht fun _ => hskipped.bind ht fun _ => ih)

theorem keeps_drainWithin (bound : Nat) : Keeps Reads (drainWithin bound) :=
  keeps_drainWithin_of Reads.refl Reads.trans keeps_refill reads_skipBlock bound

theorem innocent_drainWithin (bound : Nat) : Innocent (drainWithin bound) := by
  induction bound with
  | zero => exact innocent_pure ()
  | succ bound ih =>
    exact innocent_get_bind fun c => ends_ite (innocent_pure ())
      (innocent_refill.bind fun _ => (innocent_modify skipBlock).bind fun _ => ih)

theorem keeps_checkGuards_of {R : Channel → Channel → Prop} (hr : ∀ c, R c c) : Keeps R checkGuards := by
  intro c
  unfold checkGuards
  split
  · exact hr c
  · split <;> exact hr c

theorem keeps_checkGuards : Keeps Reads checkGuards :=
  keeps_checkGuards_of Reads.refl

-- What is pending is sent in the end; where that fails the output still has a part of it.
theorem sink_flush (c : Channel) :
    ∃ k, (final (flush c)).sink.bytes = c.sink.bytes ++ c.pending.toList.take k := by
  cases hsend : send c with
  | error fault d =>
    obtain ⟨-, sink, k, rfl, hbytes⟩ := send_error hsend
    rw [flush_of_error hsend]
    exact ⟨k, hbytes⟩
  | ok a d =>
    obtain ⟨sink, rfl, hbytes, -⟩ := send_ok hsend
    refine ⟨c.pending.toList.length, ?_⟩
    rw [List.take_length]
    cases hf : (c.sentTo sink).sink.flush with
    | mk outcome sink' =>
      rw [flush_of_ok hsend, hf]
      have hsame := Sink.bytes_flush hf
      cases outcome <;> exact hsame.trans hbytes

/-- Going from `c` to `d` nothing was put or sent, and what is read still fits the buffer. -/
structure LeavesOutput (c d : Channel) : Prop where
  sink : d.sink = c.sink
  pending : d.pending = c.pending
  guardByte : d.guardByte = c.guardByte
  size : d.size = c.size
  block : c.behind.length + c.ahead.length ≤ c.size → d.behind.length + d.ahead.length ≤ d.size

theorem Reads.leavesOutput (h : c.Reads d) : c.LeavesOutput d :=
  ⟨h.sink, h.pending, h.guardByte, h.size, h.block⟩

theorem LeavesOutput.trans {e : Channel} (h : c.LeavesOutput d) (h' : d.LeavesOutput e) :
    c.LeavesOutput e where
  sink := h'.sink.trans h.sink
  pending := h'.pending.trans h.pending
  guardByte := h'.guardByte.trans h.guardByte
  size := h'.size.trans h.size
  block := h'.block ∘ h.block

theorem Open.of_leavesOutput (h : c.Open) (hl : c.LeavesOutput d) : d.Open where
  sink := hl.sink ▸ h.sink
  room := by rw [hl.pending, hl.size]; exact h.room
  guardByte := hl.guardByte.trans h.guardByte

theorem leavesOutput_reportClosing (c : Channel) : c.LeavesOutput c.reportClosing :=
  ⟨rfl, rfl, rfl, rfl, id⟩

-- What happens in front of the last sending leaves the output alone; where it fails nothing is sent.
theorem finish_cases (c : Channel) :
    (∃ fault d, finish c = .error fault d ∧ c.LeavesOutput d) ∨
      ∃ d, finish c = flush d ∧ c.LeavesOutput d := by
  have hguards := keeps_checkGuards c
  unfold finish
  cases hg : checkGuards c with
  | error fault d =>
    rw [hg] at hguards
    exact .inl ⟨fault, d, bind_of_error hg _, hguards.leavesOutput⟩
  | ok a d =>
    rw [hg] at hguards
    rw [bind_of_ok hg]
    let skipped := d.reportClosing.skipBlock
    have hskipped : c.LeavesOutput skipped :=
      (hguards.leavesOutput.trans d.leavesOutput_reportClosing).trans (reads_skipBlock _).leavesOutput
    show (∃ fault e, (drainWithin (skipped.source.rest.length + 1) >>= fun _ => flush) skipped =
      .error fault e ∧ c.LeavesOutput e) ∨ ∃ e, (drainWithin (skipped.source.rest.length + 1) >>= fun _ =>
      flush) skipped = flush e ∧ c.LeavesOutput e
    cases hdrain : drainWithin (skipped.source.rest.length + 1) skipped with
    | error fault e =>
      have hdrained := (keeps_drainWithin _).error hdrain
      exact .inl ⟨fault, e, bind_of_error hdrain _, hskipped.trans hdrained.leavesOutput⟩
    | ok a e =>
      have hdrained := (keeps_drainWithin _).ok hdrain
      exact .inr ⟨e, bind_of_ok hdrain _, hskipped.trans hdrained.leavesOutput⟩

/-- In the end the pending bytes are sent, or a part of them, whether or not a part of them was accepted
before. -/
theorem sink_finish (c : Channel) :
    ∃ k, (final (finish c)).sink.bytes = c.sink.bytes ++ c.pending.toList.take k := by
  rcases c.finish_cases with ⟨fault, d, heq, hleaves⟩ | ⟨d, heq, hleaves⟩
  · refine ⟨0, ?_⟩
    rw [heq, List.take_zero, List.append_nil]
    exact congrArg Sink.bytes hleaves.sink
  · obtain ⟨k, hbytes⟩ := d.sink_flush
    refine ⟨k, ?_⟩
    rw [heq, hbytes, hleaves.sink, hleaves.pending]

theorem innocent_send : Innocent send := by
  refine ends_of_cases (fun _ _ => trivial) fun _ h => ?_
  obtain ⟨⟨text, rfl⟩, -⟩ := send_error h
  exact nofun

theorem innocent_flush : Innocent flush := by
  refine innocent_send.bind fun _ c _ => ?_
  dsimp only
  rcases c.sink.flush with ⟨_ | ⟨⟩, sink⟩
  · exact nofun
  · trivial

/-- Where nothing ran over the buffers the end fails only as the streams do. -/
theorem ends_finish : Ends Intact finish (fun _ _ => True) fun fault _ => fault.faultClass ≠ .contract := by
  have hguards : Ends Intact checkGuards (fun _ _ => True) fun fault _ => fault.faultClass ≠ .contract := by
    intro c h
    rw [h.checkGuards]
    trivial
  exact hguards.bind fun _ => (innocent_modify reportClosing).bind fun _ =>
    (innocent_modify skipBlock).bind fun _ => innocent_get_bind fun c =>
      (innocent_drainWithin _).bind fun _ => innocent_flush

end Channel
end Ipp
