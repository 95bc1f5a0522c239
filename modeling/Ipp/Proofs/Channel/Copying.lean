import Ipp.Proofs.Channel.Reading

/-!
# Whole blocks

Handing the rest of the request to a sink, and dropping it, block by block. Over a steady input that is
not short both come to the end of the request, whatever the blocks are.
-/

namespace Ipp.Channel

open Calls

/-! ## One block -/

theorem reads_skipBlock (c : Channel) : c.Reads c.skipBlock := by
  refine ⟨rfl, rfl, rfl, rfl, rfl, rfl, rfl, rfl, rfl, fun hb => ?_, fun hc => ⟨hc.source, hc.ended⟩⟩
  show (c.ahead.reverse ++ c.behind).length + 0 ≤ c.size
  rw [List.length_append, List.length_reverse]
  omega

theorem upcoming_skipBlock (c : Channel) : c.ahead ++ c.skipBlock.upcoming = c.upcoming :=
  rfl

-- A block is delivered when the one before it is, if there is one.
theorem getBlock_eq (c : Channel) :
    getBlock c =
      if c.ahead = [] then
        match refill c with
        | .ok _ d => .ok d.ahead d.skipBlock
        | .error fault d => .error fault d
      else .ok c.ahead c.skipBlock := by
  rw [getBlock, get_bind]
  by_cases ha : c.ahead = []
  · have hempty : c.ahead.isEmpty = true := List.isEmpty_iff.mpr ha
    rw [if_pos ha, if_pos hempty]
    cases hr : refill c with
    | ok n d => exact bind_of_ok hr _
    | error fault d => exact bind_of_error hr _
  · have hempty : ¬c.ahead.isEmpty = true := mt List.isEmpty_iff.mp ha
    rw [if_neg ha, if_neg hempty]
    rfl

theorem getBlock_ok {c d : Channel} {block : List UInt8} (h : getBlock c = .ok block d) :
    c.Reads d ∧ c.upcoming = block ++ d.upcoming := by
  rw [getBlock_eq] at h
  by_cases ha : c.ahead = []
  · rw [if_pos ha] at h
    cases hr : refill c with
    | ok n e =>
      rw [hr] at h
      cases h
      obtain ⟨hreads, hu, -⟩ := refill_ok hr ha
      exact ⟨hreads.trans (reads_skipBlock e), hu.symm⟩
    | error fault e =>
      rw [hr] at h
      cases h
  · rw [if_neg ha] at h
    cases h
    exact ⟨reads_skipBlock c, rfl⟩

theorem getBlock_error {c d : Channel} {fault : Fault} (h : getBlock c = .error fault d) :
    c.Reads d := by
  rw [getBlock_eq] at h
  by_cases ha : c.ahead = []
  · rw [if_pos ha] at h
    cases hr : refill c with
    | ok n e =>
      rw [hr] at h
      cases h
    | error fault' e =>
      rw [hr] at h
      cases h
      exact (refill_error hr).1
  · rw [if_neg ha] at h
    cases h

-- Over a steady input that is not short a block is empty only at the end.
theorem Steady.getBlock {c : Channel} (h : c.Steady) (hshort : c.isShort = false) :
    ∃ block d, Channel.getBlock c = .ok block d ∧ (block = [] → c.upcoming = []) := by
  rw [getBlock_eq]
  by_cases ha : c.ahead = []
  · rw [if_pos ha]
    by_cases hu : c.untaken = []
    · have hup : c.upcoming = [] := List.append_eq_nil_iff.mpr ⟨ha, hu⟩
      rcases h.refill_end ha hu with ⟨d, hr, -⟩ | ⟨d, -, -, hs⟩
      · exact ⟨d.ahead, d.skipBlock, by rw [hr], fun _ => hup⟩
      · rw [hshort] at hs
        cases hs
    · obtain ⟨n, d, hr, hne⟩ := h.refill hu
      exact ⟨d.ahead, d.skipBlock, by rw [hr], fun hb => absurd hb hne⟩
  · rw [if_neg ha]
    exact ⟨c.ahead, c.skipBlock, rfl, fun hb => absurd hb ha⟩

/-! ## Handing over -/

-- Whatever comes of it, handing over only reads.
theorem reads_copyRestWithin (bound : Nat) (handed : Array UInt8) (sink : Sink) (c : Channel) :
    c.Reads (copyRestWithin bound handed sink c).channel := by
  induction bound generalizing handed sink c with
  | zero => exact .refl c
  | succ bound ih =>
    rw [copyRestWithin]
    cases hb : getBlock c with
    | error fault d => exact getBlock_error hb
    | ok block d =>
      obtain ⟨hreads, -⟩ := getBlock_ok hb
      dsimp only
      split
      · exact hreads
      · split
        · exact hreads
        · exact hreads.trans (ih _ _ d)

theorem reads_copyRest (sink : Sink) (c : Channel) : c.Reads (copyRest sink c).channel :=
  reads_copyRestWithin _ _ sink c

/-- Everything that is upcoming was handed to the sink. -/
structure HandedOver (c : Channel) (handed : Array UInt8) (sink : Sink) (copied : Copied) : Prop where
  outcome : copied.outcome = .ok (handed ++ c.upcoming)
  sink : copied.sink.bytes = sink.bytes ++ c.upcoming
  upcoming : copied.channel.upcoming = []

theorem Steady.copyRestWithin {c : Channel} (h : c.Steady) (hshort : c.isShort = false)
    {sink : Sink} (hsink : sink.Steady) {bound : Nat} (hbound : c.upcoming.length < bound)
    (handed : Array UInt8) :
    c.HandedOver handed sink (Channel.copyRestWithin bound handed sink c) := by
  induction bound generalizing handed sink c with
  | zero => omega
  | succ bound ih =>
    obtain ⟨block, d, hblock, hnil⟩ := h.getBlock hshort
    obtain ⟨hreads, hu⟩ := getBlock_ok hblock
    rw [Channel.copyRestWithin, hblock]
    dsimp only
    by_cases hb : block = []
    · have hup := hnil hb
      rw [hb, hup] at hu
      rw [if_pos (List.isEmpty_iff.mpr hb)]
      exact ⟨by rw [hup]; rfl, by rw [hup, List.append_nil], hu.symm⟩
    · obtain ⟨sink', hoffer, hbytes, hsink'⟩ := hsink.offer block
      rw [if_neg (mt List.isEmpty_iff.mp hb), hoffer]
      dsimp only
      have hlen := congrArg List.length hu
      rw [List.length_append] at hlen
      have hpos := List.length_pos_iff.mpr hb
      have hrest := ih (hreads.steady h) (hreads.isShort.trans hshort) hsink' (by omega)
        (handed ++ block)
      refine ⟨?_, ?_, hrest.upcoming⟩
      · have hassoc : handed ++ block ++ d.upcoming = handed ++ (block ++ d.upcoming) := by
          apply Array.ext'
          simp only [Array.toList_appendList, List.append_assoc]
        rw [hrest.outcome, hu, hassoc]
      · rw [hrest.sink, hbytes, hu, List.append_assoc]

/-- Over a steady input that is not short the whole rest is handed to a steady sink. -/
theorem Steady.copyRest {c : Channel} (h : c.Steady) (hshort : c.isShort = false) {sink : Sink}
    (hsink : sink.Steady) : c.HandedOver #[] sink (Channel.copyRest sink c) := by
  apply h.copyRestWithin hshort hsink
  have := c.left_eq
  omega

theorem keeps_rewind : Keeps Reads rewind := by
  intro c
  rw [rewind]
  split
  · exact .refl c
  · refine ⟨rfl, rfl, rfl, rfl, rfl, rfl, rfl, rfl, rfl, fun hb => ?_,
      fun hc => ⟨hc.source, hc.ended⟩⟩
    show 0 + (c.behind.reverse ++ c.ahead).length ≤ c.size
    rw [List.length_append, List.length_reverse]
    omega

/-! ## Dropping -/

theorem Steady.untaken_of_exhausted {c : Channel} (h : c.Steady) (hx : c.exhausted = true) :
    c.untaken = [] := by
  rw [exhausted, Bool.or_eq_true, beq_iff_eq] at hx
  rcases hx with he | hr
  · obtain ⟨hnone, hrest⟩ := h.ended he
    rw [untaken, hnone]
    exact hrest
  · rw [untaken, hr]
    exact List.take_zero

theorem drainWithin_of_exhausted {c : Channel} (hx : c.exhausted = true) (bound : Nat) :
    drainWithin bound c = .ok () c := by
  cases bound with
  | zero => rfl
  | succ bound =>
    rw [drainWithin, get_bind, if_pos hx]
    rfl

/-- Over a steady input that is not short the rest is dropped. -/
theorem Steady.drainWithin {c : Channel} (h : c.Steady) (hshort : c.isShort = false)
    (ha : c.ahead = []) {bound : Nat} (hbound : c.untaken.length < bound) :
    ∃ d, Channel.drainWithin bound c = .ok () d ∧ c.Reads d ∧ d.upcoming = [] := by
  induction bound generalizing c with
  | zero => omega
  | succ bound ih =>
    by_cases hx : c.exhausted = true
    · have hup : c.upcoming = [] := List.append_eq_nil_iff.mpr ⟨ha, h.untaken_of_exhausted hx⟩
      exact ⟨c, drainWithin_of_exhausted hx _, .refl c, hup⟩
    rw [Channel.drainWithin, get_bind, if_neg hx]
    by_cases hu : c.untaken = []
    · rcases h.refill_end ha hu with ⟨d, hr, hd, hxd, -⟩ | ⟨d, -, -, hs⟩
      · obtain ⟨hreads, hup, -⟩ := refill_ok hr ha
        refine ⟨d.skipBlock, ?_, hreads.trans (reads_skipBlock d), ?_⟩
        · rw [bind_of_ok hr]
          exact drainWithin_of_exhausted (c := d.skipBlock) hxd bound
        · have hnil : c.upcoming = [] := List.append_eq_nil_iff.mpr ⟨ha, hu⟩
          rw [← upcoming_skipBlock d, hd, hnil] at hup
          exact hup
      · rw [hshort] at hs
        cases hs
    · obtain ⟨n, d, hr, hne⟩ := h.refill hu
      obtain ⟨hreads, hup, -⟩ := refill_ok hr ha
      have hreads' := hreads.trans (reads_skipBlock d)
      have hlen : d.skipBlock.untaken.length < bound := by
        have hsplit : d.ahead ++ d.untaken = c.untaken := by
          rw [upcoming, upcoming, ha] at hup
          exact hup
        have := congrArg List.length hsplit
        have := List.length_pos_iff.mpr hne
        rw [List.length_append] at *
        show d.untaken.length < bound
        omega
      obtain ⟨e, hdrain, hreads'', hnil⟩ :=
        ih (hreads'.steady h) (hreads'.isShort.trans hshort) rfl hlen
      refine ⟨e, ?_, hreads'.trans hreads'', hnil⟩
      rw [bind_of_ok hr]
      exact hdrain

/-! ## The end -/

/-- Nothing ran over the buffers. -/
structure Intact (c : Channel) : Prop where
  block : c.behind.length + c.ahead.length ≤ c.size
  guardByte : c.guardByte = intactGuard

theorem Intact.checkGuards {c : Channel} (h : c.Intact) : Channel.checkGuards c = .ok () c := by
  have hblock : ¬c.size < c.behind.length + c.ahead.length := Nat.not_lt.mpr h.block
  rw [Channel.checkGuards, if_neg hblock, if_neg (not_not_intro h.guardByte)]

-- The rest is dropped before anything is sent, so that it is dropped whatever becomes of the output.
theorem Steady.finish_eq {c : Channel} (h : c.Steady) (hshort : c.isShort = false) (hi : c.Intact) :
    ∃ d, Channel.finish c = Channel.flush d ∧ c.reportClosing.Reads d ∧ d.upcoming = [] := by
  have hreads := reads_skipBlock c.reportClosing
  have hsteady : c.reportClosing.Steady := ⟨h.source, h.ended⟩
  have hbound : c.reportClosing.skipBlock.untaken.length <
      c.reportClosing.skipBlock.source.rest.length + 1 := by
    have := congrArg List.length c.reportClosing.skipBlock.untaken_append_beyond
    rw [List.length_append] at this
    omega
  obtain ⟨d, hdrain, hreads', hnil⟩ :=
    (hreads.steady hsteady).drainWithin (hreads.isShort.trans hshort) rfl hbound
  refine ⟨d, ?_, hreads.trans hreads', hnil⟩
  rw [Channel.finish, bind_of_ok hi.checkGuards]
  show (Channel.drainWithin _ >>= _) c.reportClosing.skipBlock = _
  rw [bind_of_ok hdrain]

end Ipp.Channel
