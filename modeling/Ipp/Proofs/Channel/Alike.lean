import Ipp.Proofs.Channel.Copying
import Ipp.Proofs.Channel.Sending

/-!
# Channels that differ in their buffers

Two channels over the same bytes may read and send them in different pieces. While their streams are
steady no call can tell them apart, and what they leave behind at the end is the same.
-/

namespace Ipp.Channel

open Calls

/-! ## Channels on which nothing fails -/

/-- The input holds what was declared, neither stream fails, and nothing ran over the buffers. -/
structure Fit (c : Channel) : Prop where
  steady : c.Steady
  whole : c.isShort = false
  isOpen : c.Open
  block : c.behind.length + c.ahead.length ≤ c.size

theorem Fit.of_reads {c d : Channel} (h : c.Fit) (hr : c.Reads d) : d.Fit where
  steady := hr.steady h.steady
  whole := hr.isShort.trans h.whole
  isOpen := h.isOpen.of_reads hr
  block := hr.block h.block

theorem Fit.of_sends {c d : Channel} (h : c.Fit) (hs : c.Sends d) : d.Fit := by
  have hopen := hs.isOpen h.isOpen
  rcases hs.same with ⟨sink, pending, guardByte, events, rfl⟩
  exact ⟨⟨h.steady.source, h.steady.ended⟩, h.whole, hopen, h.block⟩

theorem Fit.starvation {c : Channel} (h : c.Fit) : c.starvation = .dataRunoff := by
  rw [Channel.starvation, h.whole]
  rfl

/-! ## The relation -/

/-- Both channels have the same bytes to deliver and have produced the same bytes. Of their own work they
may have reported other things, but not when they were closed. -/
structure Alike (c d : Channel) : Prop where
  left : c.Fit
  right : d.Fit
  upcoming : c.upcoming = d.upcoming
  beyond : c.beyond = d.beyond
  produced : c.produced = d.produced
  taken : c.source.taken + c.untaken.length = d.source.taken + d.untaken.length
  closings : c.closings = d.closings

theorem Alike.of_reads {c d c' d' : Channel} (h : c.Alike d) (hc : c.Reads c') (hd : d.Reads d')
    (hu : c'.upcoming = d'.upcoming) : c'.Alike d' where
  left := h.left.of_reads hc
  right := h.right.of_reads hd
  upcoming := hu
  beyond := by rw [hc.beyond, hd.beyond, h.beyond]
  produced := by rw [produced_of_reads hc, produced_of_reads hd, h.produced]
  taken := by rw [hc.taken, hd.taken, h.taken]
  closings := by rw [hc.closings, hd.closings, h.closings]

theorem Alike.of_sends {c d c' d' : Channel} (h : c.Alike d) (hc : c.Sends c') (hd : d.Sends d')
    (hp : c'.produced = d'.produced) : c'.Alike d' := by
  have hleft := h.left.of_sends hc
  have hright := h.right.of_sends hd
  have hclosings : c'.closings = d'.closings := by rw [hc.closings, hd.closings, h.closings]
  rcases hc.same with ⟨_, _, _, _, rfl⟩
  rcases hd.same with ⟨_, _, _, _, rfl⟩
  exact ⟨hleft, hright, h.upcoming, h.beyond, hp, h.taken, hclosings⟩

theorem Alike.left_eq {c d : Channel} (h : c.Alike d) : c.left = d.left := by
  rw [Channel.left_eq, Channel.left_eq, h.upcoming, h.beyond]

/-! ## Reading -/

theorem agree_getByte : Agree Alike getByte getByte := by
  intro c d h
  have hu := h.upcoming
  cases hc : c.upcoming with
  | nil =>
    -- One channel may find the end by its count, the other by an empty read; the fault is the same.
    rw [hc] at hu
    obtain ⟨c', hgetc⟩ := h.left.steady.getByte_end hc
    obtain ⟨d', hgetd⟩ := h.right.steady.getByte_end hu.symm
    obtain ⟨hreadsc, huc⟩ := getByte_error hgetc
    obtain ⟨hreadsd, hud⟩ := getByte_error hgetd
    rw [hgetc, hgetd, h.left.starvation, h.right.starvation]
    exact .error (h.of_reads hreadsc hreadsd (by rw [huc, hud, h.upcoming]))
  | cons b rest =>
    rw [hc] at hu
    obtain ⟨c', hgetc, hreadsc, huc⟩ := h.left.steady.getByte_cons hc
    obtain ⟨d', hgetd, hreadsd, hud⟩ := h.right.steady.getByte_cons hu.symm
    rw [hgetc, hgetd]
    exact .ok (h.of_reads hreadsc hreadsd (by rw [huc, hud]))

theorem agree_getBytesOnto (n : Nat) (got : List UInt8) :
    Agree Alike (getBytesOnto n got) (getBytesOnto n got) := by
  induction n generalizing got with
  | zero => exact agree_pure _
  | succ n ih => exact agree_getByte.bind fun b => ih (b :: got)

theorem agree_getBytes (n : Nat) : Agree Alike (getBytes n) (getBytes n) :=
  agree_getBytesOnto n []

theorem agree_getUInt16 : Agree Alike getUInt16 getUInt16 :=
  (agree_getBytes 2).bind fun _ => agree_pure _

theorem agree_getUInt32 : Agree Alike getUInt32 getUInt32 :=
  (agree_getBytes 4).bind fun _ => agree_pure _

-- Both hand over all that is upcoming, whatever the blocks are and however the sinks take them.
theorem Alike.copyRest {c d : Channel} (h : c.Alike d) {sink sink' : Sink} (hs : sink.Steady)
    (hs' : sink'.Steady) (hbytes : sink.bytes = sink'.bytes) :
    (Channel.copyRest sink c).outcome = (Channel.copyRest sink' d).outcome ∧
      (Channel.copyRest sink c).sink.bytes = (Channel.copyRest sink' d).sink.bytes ∧
      (Channel.copyRest sink c).channel.Alike (Channel.copyRest sink' d).channel := by
  have hc := h.left.steady.copyRest h.left.whole hs
  have hd := h.right.steady.copyRest h.right.whole hs'
  refine ⟨?_, ?_, h.of_reads (reads_copyRest sink c) (reads_copyRest sink' d) ?_⟩
  · rw [hc.outcome, hd.outcome, h.upcoming]
  · rw [hc.sink, hd.sink, hbytes, h.upcoming]
  · rw [hc.upcoming, hd.upcoming]

/-! ## Sending -/

-- A call that always succeeds on an open channel and adds the same bytes wherever it is made.
theorem agree_of_sends {x : Action Unit} {bytes : List UInt8}
    (htotal : ∀ {c : Channel}, c.Open → ∃ d, x c = .ok () d)
    (hok : ∀ {c d : Channel}, x c = .ok () d → c.Sends d ∧ d.produced = c.produced ++ bytes) :
    Agree Alike x x := by
  intro c d h
  obtain ⟨c', hc⟩ := htotal h.left.isOpen
  obtain ⟨d', hd⟩ := htotal h.right.isOpen
  obtain ⟨hsendsc, hpc⟩ := hok hc
  obtain ⟨hsendsd, hpd⟩ := hok hd
  rw [hc, hd]
  exact .ok (h.of_sends hsendsc hsendsd (by rw [hpc, hpd, h.produced]))

theorem agree_putBytes (bytes : List UInt8) : Agree Alike (putBytes bytes) (putBytes bytes) :=
  agree_of_sends (fun h => h.putBytes bytes) putBytes_ok

theorem agree_copyFile (content : List UInt8) : Agree Alike (copyFile content) (copyFile content) :=
  agree_of_sends (fun h => h.copyFile content) copyFile_ok

theorem produced_of_flush {c d : Channel} (h : flush c = .ok () d) : d.produced = c.produced := by
  obtain ⟨-, hbytes, hpending⟩ := flush_ok h
  rw [produced, hbytes, hpending]
  exact List.append_nil _

theorem agree_flush : Agree Alike flush flush := by
  have hok : ∀ {c d : Channel}, flush c = .ok () d → c.Sends d ∧ d.produced = c.produced ++ [] :=
    fun h => ⟨(flush_ok h).1, by rw [produced_of_flush h, List.append_nil]⟩
  exact agree_of_sends (fun h => h.flush) hok

/-! ## The end -/

/-- What is left in the end: all of the request was taken, all that was produced was sent, and what was not
delivered was reported. -/
structure Finished (c d : Channel) : Prop where
  taken : d.source.taken = c.source.taken + c.untaken.length
  bytes : d.sink.bytes = c.produced
  closings : d.closings = c.leftover :: c.closings
  counted : d.remaining.isSome = c.remaining.isSome

theorem Fit.finish {c : Channel} (h : c.Fit) : ∃ d, Channel.finish c = .ok () d ∧ c.Finished d := by
  obtain ⟨t, hfinish, hreads, hnil⟩ := h.steady.finish_eq h.whole ⟨h.block, h.isOpen.guardByte⟩
  have hopen : c.reportClosing.Open := ⟨h.isOpen.sink, h.isOpen.room, h.isOpen.guardByte⟩
  obtain ⟨d, hflush⟩ := (hopen.of_reads hreads).flush
  obtain ⟨hsends, hbytes, -⟩ := flush_ok hflush
  have hproduced : t.produced = c.reportClosing.produced := produced_of_reads hreads
  have htaken := hreads.taken
  have huntaken : t.untaken = [] := (List.append_eq_nil_iff.mp hnil).2
  rw [huntaken, List.length_nil, Nat.add_zero] at htaken
  refine ⟨d, hfinish.trans hflush, ?_, hbytes.trans hproduced,
    hsends.closings.trans hreads.closings, ?_⟩
  · rcases hsends.same with ⟨_, _, _, _, rfl⟩
    exact htaken
  · rcases hsends.same with ⟨_, _, _, _, rfl⟩
    exact hreads.counted

-- Both leave the same behind.
theorem Alike.finished {c d c' d' : Channel} (h : c.Alike d) (hc : c.Finished c')
    (hd : d.Finished d') : c'.source.taken = d'.source.taken ∧ c'.sink.bytes = d'.sink.bytes := by
  rw [hc.taken, hd.taken, h.taken, hc.bytes, hd.bytes, h.produced]
  exact ⟨rfl, rfl⟩

-- Where the length of the request is known, what is left of it is what is upcoming.
theorem Fit.leftover_eq {c : Channel} (h : c.Fit) (hcounted : c.remaining.isSome = true) :
    c.leftover = c.upcoming.length := by
  obtain ⟨n, hn⟩ := Option.isSome_iff_exists.mp hcounted
  have hwhole : n ≤ c.source.rest.length := by
    have hshort := h.whole
    rw [isShort, hn, Option.any_some, decide_eq_false_iff_not, Nat.not_lt] at hshort
    exact hshort
  rw [leftover, buffered, upcoming, untaken, hn, Option.getD_some, List.length_append,
    List.length_take_of_le hwhole]

-- Without a declared length one channel may hold bytes in its buffer that the other has not taken yet.
theorem Alike.closings_finished {c d c' d' : Channel} (h : c.Alike d) (hc : c.Finished c')
    (hd : d.Finished d') (hcounted : c'.remaining.isSome = true) (hcounted' : d'.remaining.isSome = true) :
    c'.closings = d'.closings := by
  rw [hc.closings, hd.closings, h.left.leftover_eq (hc.counted.symm.trans hcounted),
    h.right.leftover_eq (hd.counted.symm.trans hcounted'), h.upcoming, h.closings]

/-! ## Fresh channels -/

theorem fit_opened {source : Source} (hs : source.Steady) {sink : Sink} (hk : sink.Steady)
    {declared : Option Nat} (hd : ∀ n ∈ declared, n ≤ source.rest.length) (bufferSize : Nat) :
    (opened source sink declared bufferSize).Fit where
  steady := steady_opened hs sink declared bufferSize
  whole := whole_opened sink hd bufferSize
  isOpen := open_opened source hk declared bufferSize
  block := Nat.zero_le _

-- Fresh channels over the same bytes are alike when the same of them are the request.
theorem alike_opened {source source' : Source} (hs : source.Steady) (hs' : source'.Steady)
    {sink sink' : Sink} (hk : sink.Steady) (hk' : sink'.Steady) {declared declared' : Option Nat}
    (hd : ∀ n ∈ declared, n ≤ source.rest.length) (hd' : ∀ n ∈ declared', n ≤ source'.rest.length)
    (size size' : Nat)
    (huntaken : (opened source sink declared size).untaken = (opened source' sink' declared' size').untaken)
    (hbeyond : (opened source sink declared size).beyond = (opened source' sink' declared' size').beyond)
    (hbytes : sink.bytes = sink'.bytes) (htaken : source.taken = source'.taken) :
    (opened source sink declared size).Alike (opened source' sink' declared' size') where
  left := fit_opened hs hk hd size
  right := fit_opened hs' hk' hd' size'
  upcoming := huntaken
  beyond := hbeyond
  produced := congrArg (· ++ []) hbytes
  taken := by
    show source.taken + _ = source'.taken + _
    rw [htaken, huntaken]
  closings := rfl

end Ipp.Channel
