import Ipp.Proofs.Channel.Breaking
import Ipp.Proofs.Channel.Primitives

/-!
# Where a channel stands in its input

The cursor of a channel is the number of bytes of the input that it has passed over. Whatever is asked of
the read side, and however the input behaves, the cursor only moves forward, and a call that succeeds gives
the bytes that it has moved over (`Shape.get_passes`).
-/

namespace Ipp.Channel

open Calls

/-! ## Passing over bytes -/

/-- The number of bytes of the input that were delivered or dropped. -/
def cursor (c : Channel) : Nat :=
  c.source.taken - c.buffered

/-- Nothing is buffered, and the input has nothing more to give. -/
structure AtEnd (c : Channel) : Prop where
  ahead : c.ahead = []
  exhausted : c.exhausted = true

/-- Going from `c` to `d` the channel has passed over the bytes in `passed`, which came next in its input. -/
structure Passes (c : Channel) (passed : List UInt8) (d : Channel) : Prop where
  input : c.ahead ++ c.source.rest = passed ++ (d.ahead ++ d.source.rest)
  taken : c.source.taken + passed.length + d.ahead.length = d.source.taken + c.ahead.length
  declared : d.remaining.map (d.source.taken + ·) = c.remaining.map (c.source.taken + ·)
  ended : (c.ended = true → c.remaining = none) → d.ended = true → d.remaining = none

/-- The channel has passed over some bytes, or over none. -/
def Advances (c d : Channel) : Prop :=
  ∃ passed, c.Passes passed d

section

variable {c d e : Channel} {passed passed' : List UInt8}

theorem Passes.refl (c : Channel) : c.Passes [] c :=
  ⟨rfl, rfl, rfl, id⟩

theorem Passes.trans (h : c.Passes passed d) (h' : d.Passes passed' e) :
    c.Passes (passed ++ passed') e where
  input := by rw [h.input, h'.input, List.append_assoc]
  taken := by
    have := h.taken
    have := h'.taken
    rw [List.length_append]
    omega
  declared := h'.declared.trans h.declared
  ended := h'.ended ∘ h.ended

theorem Passes.advances (h : c.Passes passed d) : c.Advances d :=
  ⟨passed, h⟩

theorem Advances.refl (c : Channel) : c.Advances c :=
  (Passes.refl c).advances

theorem Advances.trans (h : c.Advances d) (h' : d.Advances e) : c.Advances e := by
  obtain ⟨passed, hp⟩ := h
  obtain ⟨passed', hp'⟩ := h'
  exact (hp.trans hp').advances

-- What is not passed over is left.
theorem Passes.left_eq (h : c.Passes passed d) : c.left = passed.length + d.left := by
  have := congrArg List.length h.input
  simp only [List.length_append] at this
  exact this

end

/-! ## Blocks -/

theorem passes_skipBlock (c : Channel) : c.Passes c.ahead c.skipBlock :=
  ⟨rfl, rfl, rfl, id⟩

-- A block takes the place of the one before, of which nothing more is delivered.
theorem passes_loaded {c : Channel} {s : Source} {bytes : List UInt8} (hg : c.source.Gave bytes s)
    (hl : bytes.length ≤ c.want) (hk : (bytes.isEmpty && c.remaining.isSome) = false) :
    c.Passes c.ahead (c.loaded s bytes) where
  input := congrArg (c.ahead ++ ·) hg.rest
  taken := by
    show c.source.taken + c.ahead.length + bytes.length = s.taken + c.ahead.length
    have := hg.taken
    omega
  declared := by
    have htaken := hg.taken
    cases hr : c.remaining with
    | none => simp [loaded, hr]
    | some n =>
      have hn := length_le_remaining hr hl
      simp only [loaded, hr, Option.map_some, Option.some.injEq]
      omega
  ended _ he := by
    have hb : bytes.isEmpty = true := he
    have hr : c.remaining = none := by simpa [hb] using hk
    simp [loaded, hr]

theorem passes_source {c : Channel} {s : Source} (hg : c.source.Gave [] s) :
    c.Passes [] { c with source := s } where
  input := congrArg (c.ahead ++ ·) hg.rest
  taken := by
    show c.source.taken + 0 + c.ahead.length = s.taken + c.ahead.length
    have : s.taken = c.source.taken := hg.taken
    omega
  declared := by
    have : s.taken = c.source.taken := hg.taken
    simp only [this]
  ended := id

/-- What is known of a channel on which a read has failed for want of bytes. -/
structure Starves (fault : Fault) (c : Channel) : Prop where
  dataRunoff : fault = .dataRunoff → c.AtEnd
  prematureEof : fault = .prematureEof → ∃ n, c.remaining = some n ∧ 0 < n

theorem starves_io (text : String) (c : Channel) : Starves (.io text) c :=
  ⟨nofun, nofun⟩

/-- The three ways in which reading a block ends: there is nothing to read, or the call on the input fails or
gives nothing though more was declared, or a block is read. -/
theorem refill_cases (c : Channel) :
    (c.exhausted = true ∧ refill c = .ok 0 c) ∨
    (∃ fault s, refill c = .error fault { c with source := s } ∧ c.source.Gave [] s ∧
      Starves fault { c with source := s }) ∨
    ∃ s bytes, refill c = .ok bytes.length (c.loaded s bytes) ∧ c.Passes c.ahead (c.loaded s bytes) := by
  unfold refill
  by_cases hx : c.exhausted = true
  · exact .inl ⟨hx, if_pos hx⟩
  rw [if_neg hx]
  cases hread : c.source.read c.want with
  | mk outcome s =>
    cases outcome with
    | error text => exact .inr (.inl ⟨.io text, s, rfl, Source.read_error hread, starves_io text _⟩)
    | ok bytes =>
      obtain ⟨hg, hl⟩ := Source.read_ok hread
      dsimp only
      by_cases hk : (bytes.isEmpty && c.remaining.isSome) = true
      · rw [if_pos hk]
        obtain ⟨hb, hr⟩ := Bool.and_eq_true_iff.mp hk
        obtain ⟨n, hn⟩ := Option.isSome_iff_exists.mp hr
        rw [List.isEmpty_iff.mp hb] at hg
        refine .inr (.inl ⟨_, s, rfl, hg, nofun, fun _ => ⟨n, hn, Nat.pos_of_ne_zero ?_⟩⟩)
        rintro rfl
        exact hx (by simp [exhausted, hn])
      · rw [if_neg hk]
        exact .inr (.inr ⟨s, bytes, rfl, passes_loaded hg hl (eq_false_of_ne_true hk)⟩)

theorem advances_refill : Keeps Advances refill := by
  intro c
  rcases c.refill_cases with ⟨-, h⟩ | ⟨fault, s, h, hg, -⟩ | ⟨s, bytes, h, hp⟩
  · rw [h]
    exact .refl c
  · rw [h]
    exact (passes_source hg).advances
  · rw [h]
    exact hp.advances

-- Where nothing is buffered nothing is passed over.
theorem refill_passes {c : Channel} (ha : c.ahead = []) : c.Passes [] (final (refill c)) := by
  rcases c.refill_cases with ⟨-, h⟩ | ⟨fault, s, h, hg, -⟩ | ⟨s, bytes, h, hp⟩
  · rw [h]
    exact .refl c
  · rw [h]
    exact passes_source hg
  · rw [h]
    rw [ha] at hp
    exact hp

-- An empty block means that the request has ended.
theorem refill_atEnd {c d : Channel} {n : Nat} (h : refill c = .ok n d) (hd : d.ahead = []) : d.AtEnd := by
  refine ⟨hd, ?_⟩
  rcases c.refill_cases with ⟨hx, h'⟩ | ⟨fault, s, h', -, -⟩ | ⟨s, bytes, h', -⟩
  · rw [h'] at h
    cases h
    exact hx
  · rw [h'] at h
    cases h
  · rw [h'] at h
    cases h
    have hb : bytes = [] := hd
    simp [exhausted, loaded, hb]

theorem starves_refill : Ends (fun _ => True) refill (fun _ _ => True) Starves := by
  intro c _
  rcases c.refill_cases with ⟨-, h⟩ | ⟨fault, s, h, -, hs⟩ | ⟨s, bytes, h, -⟩
  · rw [h]
    trivial
  · rw [h]
    exact hs
  · rw [h]
    trivial

/-! ## Bytes -/

theorem passes_takeByte {c d : Channel} {b : UInt8} (h : c.takeByte = some (b, d)) : c.Passes [b] d := by
  unfold takeByte at h
  split at h
  · next b' ahead ha =>
    cases h
    refine ⟨?_, ?_, rfl, id⟩
    · simp only [ha, List.cons_append, List.nil_append]
    · simp only [ha, List.length_cons, List.length_nil]
      omega
  · cases h

/-- A byte that is delivered is the next one; a read that fails passes over nothing. -/
theorem getByte_passes (c : Channel) :
    (∃ b d, getByte c = .ok b d ∧ c.Passes [b] d) ∨
    ∃ fault d, getByte c = .error fault d ∧ c.Passes [] d ∧ Starves fault d := by
  unfold getByte
  cases ht : c.takeByte with
  | some taken => exact .inl ⟨taken.1, taken.2, rfl, passes_takeByte ht⟩
  | none =>
    have ha := takeByte_eq_none ht
    have hpasses := refill_passes ha
    cases hr : refill c with
    | error fault d =>
      rw [hr] at hpasses
      exact .inr ⟨fault, d, rfl, hpasses, starves_refill.error trivial hr⟩
    | ok n d =>
      rw [hr] at hpasses
      cases ht' : d.takeByte with
      | some taken =>
        exact .inl ⟨taken.1, taken.2, by simp only [ht'], hpasses.trans (passes_takeByte ht')⟩
      | none =>
        have hend := refill_atEnd hr (takeByte_eq_none ht')
        exact .inr ⟨.dataRunoff, d, by simp only [ht'], hpasses, fun _ => hend, nofun⟩

theorem passes_getByte {c d : Channel} {b : UInt8} (h : getByte c = .ok b d) : c.Passes [b] d := by
  rcases c.getByte_passes with ⟨b', d', h', hp⟩ | ⟨fault, d', h', -, -⟩
  · rw [h] at h'
    cases h'
    exact hp
  · rw [h] at h'
    cases h'

theorem advances_getByte : Keeps Advances getByte := by
  intro c
  rcases c.getByte_passes with ⟨b, d, h, hp⟩ | ⟨fault, d, h, hp, -⟩
  · rw [h]
    exact hp.advances
  · rw [h]
    exact hp.advances

theorem starves_getByte : Ends (fun _ => True) getByte (fun _ _ => True) Starves := by
  intro c _
  rcases c.getByte_passes with ⟨b, d, h, -⟩ | ⟨fault, d, h, -, hs⟩
  · rw [h]
    trivial
  · rw [h]
    exact hs

theorem advances_getBytesOnto (n : Nat) (got : List UInt8) : Keeps Advances (getBytesOnto n got) :=
  keeps_getBytesOnto_of Advances.refl Advances.trans advances_getByte n got

theorem starves_getBytesOnto (n : Nat) (got : List UInt8) :
    Ends (fun _ => True) (getBytesOnto n got) (fun _ _ => True) Starves := by
  induction n generalizing got with
  | zero => exact ends_pure fun _ _ => trivial
  | succ n ih => exact starves_getByte.bind fun b => ih (b :: got)

theorem getBytesOnto_passes {n : Nat} {got bytes : List UInt8} {c d : Channel}
    (h : getBytesOnto n got c = .ok bytes d) :
    ∃ new, bytes = got.reverse ++ new ∧ new.length = n ∧ c.Passes new d := by
  induction n generalizing got c with
  | zero =>
    cases h
    exact ⟨[], (List.append_nil _).symm, rfl, .refl _⟩
  | succ n ih =>
    obtain ⟨b, e, hb, hrest⟩ := bind_eq_ok.mp h
    obtain ⟨new, rfl, hlen, hpasses⟩ := ih hrest
    exact ⟨b :: new, by simp, by rw [List.length_cons, hlen], (passes_getByte hb).trans hpasses⟩

/-! ## Primitives -/

/-- A primitive that is read is what the bytes passed over stand for. -/
theorem Shape.get_passes {s : Shape} {p : Primitive} {c d : Channel} (h : s.get c = .ok p d) :
    p.shape = s ∧ c.Passes p.wire d := by
  rw [s.get_eq] at h
  obtain ⟨bytes, e, hbytes, hp⟩ := bind_eq_ok.mp h
  cases hp
  obtain ⟨new, hnew, hlen, hpasses⟩ := getBytesOnto_passes hbytes
  have hsame : bytes = new := hnew
  obtain ⟨hwire, hshape⟩ := s.wire_decode hlen
  refine ⟨by rw [hsame, hshape], ?_⟩
  rw [hsame, hwire]
  exact hpasses

theorem Shape.advances_get (s : Shape) : Keeps Advances s.get := by
  rw [s.get_eq]
  exact (advances_getBytesOnto s.width []).bind Advances.trans fun _ => keeps_pure Advances.refl _

theorem Shape.starves_get (s : Shape) : Ends (fun _ => True) s.get (fun _ _ => True) Starves := by
  rw [s.get_eq]
  exact (starves_getBytesOnto s.width []).bind fun _ => ends_pure fun _ _ => trivial

/-! ## Whole blocks -/

/-- A block is what is passed over, and only at the end it is empty. -/
theorem passes_getBlock {c d : Channel} {block : List UInt8} (h : getBlock c = .ok block d) :
    c.Passes block d ∧ (block = [] → d.AtEnd) := by
  rw [getBlock_eq] at h
  by_cases ha : c.ahead = []
  · rw [if_pos ha] at h
    have hpasses := refill_passes ha
    cases hr : refill c with
    | error fault e =>
      rw [hr] at h
      cases h
    | ok n e =>
      rw [hr] at h hpasses
      cases h
      refine ⟨hpasses.trans (passes_skipBlock e), fun hb => ?_⟩
      exact ⟨rfl, (refill_atEnd hr hb).exhausted⟩
  · rw [if_neg ha] at h
    cases h
    exact ⟨passes_skipBlock c, fun hb => absurd hb ha⟩

theorem getBlock_fails {c d : Channel} {fault : Fault} (h : getBlock c = .error fault d) :
    c.Passes [] d ∧ Starves fault d := by
  rw [getBlock_eq] at h
  by_cases ha : c.ahead = []
  · rw [if_pos ha] at h
    have hpasses := refill_passes ha
    cases hr : refill c with
    | ok n e =>
      rw [hr] at h
      cases h
    | error fault' e =>
      rw [hr] at h hpasses
      cases h
      exact ⟨hpasses, starves_refill.error trivial hr⟩
  · rw [if_neg ha] at h
    cases h

theorem starves_sendFault (refused : String) (refusal : Sink.Refusal) (c : Channel) :
    Starves (sendFault refused refusal) c := by
  cases refusal <;> exact starves_io _ c

/-- What was passed over was handed to the sink: all of it when that succeeds, else a first part of it. -/
def Hands (c : Channel) (handed : Array UInt8) (sink : Sink) (copied : Copied) : Prop :=
  ∃ passed, c.Passes passed copied.channel ∧
    match copied.outcome with
    | .ok handed' =>
      handed' = handed ++ passed ∧ copied.sink.bytes = sink.bytes ++ passed ∧ copied.channel.AtEnd
    | .error fault =>
      Starves fault copied.channel ∧ ∃ k, copied.sink.bytes = sink.bytes ++ passed.take k

-- The blocks run out before the bound does, since each of them takes something off what is left.
theorem hands_copyRestWithin {c : Channel} {bound : Nat} (hbound : c.left < bound) (handed : Array UInt8)
    (sink : Sink) : c.Hands handed sink (copyRestWithin bound handed sink c) := by
  induction bound generalizing handed sink c with
  | zero => omega
  | succ bound ih =>
    rw [copyRestWithin]
    cases hb : getBlock c with
    | error fault d =>
      obtain ⟨hpasses, hstarves⟩ := getBlock_fails hb
      exact ⟨[], hpasses, hstarves, 0, (List.append_nil _).symm⟩
    | ok block d =>
      obtain ⟨hpasses, hend⟩ := passes_getBlock hb
      dsimp only
      by_cases hnil : block = []
      · rw [if_pos (List.isEmpty_iff.mpr hnil)]
        refine ⟨block, hpasses, ?_, ?_, hend hnil⟩
        · simp [hnil]
        · simp [hnil]
      rw [if_neg (mt List.isEmpty_iff.mp hnil)]
      cases ho : sink.offer block with
      | mk outcome sink' =>
        cases outcome with
        | error refusal =>
          obtain ⟨k, -, hk⟩ := Sink.offer_error ho
          exact ⟨block, hpasses, starves_sendFault _ _ _, k, hk⟩
        | ok done =>
          obtain ⟨hbytes, -, -⟩ := Sink.offer_ok ho
          have hpos := List.length_pos_iff.mpr hnil
          have hleft := hpasses.left_eq
          have hbound' : d.left < bound := by omega
          obtain ⟨passed, hpasses', hcopied⟩ := ih hbound' (handed ++ block) sink'
          refine ⟨block ++ passed, hpasses.trans hpasses', ?_⟩
          dsimp only
          cases hout : (copyRestWithin bound (handed ++ block) sink' d).outcome with
          | ok handed' =>
            rw [hout] at hcopied
            obtain ⟨hhanded, hsent, hatEnd⟩ := hcopied
            refine ⟨?_, ?_, hatEnd⟩
            · rw [hhanded]
              apply Array.ext'
              simp only [Array.toList_appendList, List.append_assoc]
            · rw [hsent, hbytes, List.append_assoc]
          | error fault =>
            rw [hout] at hcopied
            obtain ⟨hstarves, k, hk⟩ := hcopied
            refine ⟨hstarves, block.length + k, ?_⟩
            rw [hk, hbytes, List.append_assoc, List.take_length_add_append]

theorem hands_copyRest (sink : Sink) (c : Channel) : c.Hands #[] sink (copyRest sink c) :=
  hands_copyRestWithin (Nat.lt_succ_self _) #[] sink

/-! ## The end -/

theorem advances_skipBlock (c : Channel) : c.Advances c.skipBlock :=
  (passes_skipBlock c).advances

theorem advances_drainWithin (bound : Nat) : Keeps Advances (drainWithin bound) :=
  keeps_drainWithin_of Advances.refl Advances.trans advances_refill advances_skipBlock bound

-- Each block that is dropped takes something off what the input holds, unless it is the last.
theorem starves_drainWithin (bound : Nat) :
    Ends (fun c => c.ahead = [] ∧ c.source.rest.length < bound) (drainWithin bound)
      (fun _ d => d.AtEnd) Starves := by
  induction bound with
  | zero =>
    rintro c ⟨-, hbound⟩
    omega
  | succ bound ih =>
    rintro c ⟨ha, hbound⟩
    by_cases hx : c.exhausted = true
    · rw [drainWithin_of_exhausted hx]
      exact ⟨ha, hx⟩
    rw [drainWithin, get_bind, if_neg hx]
    have hpasses := refill_passes ha
    cases hr : refill c with
    | error fault d =>
      rw [bind_of_error hr]
      exact starves_refill.error trivial hr
    | ok n d =>
      rw [hr] at hpasses
      rw [bind_of_ok hr]
      have hskip : (modify skipBlock : Action PUnit) d = .ok ⟨⟩ d.skipBlock := rfl
      rw [bind_of_ok hskip]
      by_cases hd : d.ahead = []
      · have hxd : d.skipBlock.exhausted = true := (refill_atEnd hr hd).exhausted
        rw [drainWithin_of_exhausted hxd]
        exact ⟨rfl, hxd⟩
      · apply ih
        refine ⟨rfl, ?_⟩
        have hleft := hpasses.left_eq
        have hpos := List.length_pos_iff.mpr hd
        simp only [left, final, ha, List.length_nil] at hleft
        show d.source.rest.length < bound
        omega

-- The write side makes no difference.
theorem Spares.passes {c d : Channel} (h : c.Spares d) : c.Passes [] d := by
  rcases h with ⟨sink, pending, events, rfl⟩
  exact ⟨rfl, rfl, rfl, id⟩

theorem advances_finish : Keeps Advances finish := by
  have hguards : Keeps Advances checkGuards := keeps_checkGuards_of Advances.refl
  have hreport : Keeps Advances (modify reportClosing : Action PUnit) :=
    keeps_modify fun c => c.spares_reportClosing.passes.advances
  have hskip : Keeps Advances (modify skipBlock : Action PUnit) := keeps_modify advances_skipBlock
  have hflush : Keeps Advances flush := fun c => c.spares_flush.passes.advances
  exact hguards.bind Advances.trans fun _ => hreport.bind Advances.trans fun _ =>
    hskip.bind Advances.trans fun _ => keeps_get_bind fun _ =>
      (advances_drainWithin _).bind Advances.trans fun _ => hflush

theorem starves_checkGuards : Ends (fun _ => True) checkGuards (fun _ _ => True) Starves := by
  intro c _
  unfold checkGuards
  by_cases hread : c.size < c.behind.length + c.ahead.length
  · rw [if_pos hread]
    exact ⟨nofun, nofun⟩
  rw [if_neg hread]
  by_cases hwrite : c.guardByte ≠ intactGuard
  · rw [if_pos hwrite]
    exact ⟨nofun, nofun⟩
  · rw [if_neg hwrite]
    trivial

theorem flush_error {c d : Channel} {fault : Fault} (h : flush c = .error fault d) :
    ∃ text, fault = .io text := by
  cases hsend : send c with
  | error fault' e =>
    rw [flush_of_error hsend] at h
    cases h
    exact (send_error hsend).1
  | ok a e =>
    rw [flush_of_ok hsend] at h
    split at h
    · cases h
    · cases h
      exact ⟨_, rfl⟩

theorem starves_flush : Ends AtEnd flush (fun _ d => d.AtEnd) Starves := by
  refine ends_of_cases (fun {c _ d} hc h => ?_) fun {c d fault} _ h => ?_
  · have hspares := c.spares_flush
    rw [h] at hspares
    rcases hspares with ⟨sink, pending, events, heq⟩
    have hd : d = { c with sink, pending, events } := heq
    rw [hd]
    exact ⟨hc.ahead, hc.exhausted⟩
  · obtain ⟨text, rfl⟩ := flush_error h
    exact starves_io text _

/-- When the exchange is finished the request has come to its end. -/
theorem starves_finish : Ends (fun _ => True) finish (fun _ d => d.AtEnd) Starves := by
  refine starves_checkGuards.bind fun _ => ?_
  intro c _
  exact ((starves_drainWithin _).bind fun _ => starves_flush) c.reportClosing.skipBlock
    ⟨rfl, Nat.lt_succ_self _⟩

end Ipp.Channel
