import Ipp.Channel.Codec
import Ipp.Proofs.Calls
import Ipp.Proofs.Stream
import Ipp.Proofs.Wire

/-!
# What a channel delivers

A channel delivers the bytes of the request one after the other, wherever its blocks begin and end.
`upcoming` are the bytes that it has still to deliver. A call that succeeds takes its bytes off the front
of them (`getBytes_ok`), and over a steady input no call fails while they suffice
(`Steady.getBytes_append`).
-/

namespace Ipp.Channel

open Calls

/-! ## Views of the input -/

/-- The bytes of the request that are not taken from the input yet. -/
def untaken (c : Channel) : List UInt8 :=
  match c.remaining with
  | some n => c.source.rest.take n
  | none => c.source.rest

/-- The bytes of the input behind the request. -/
def beyond (c : Channel) : List UInt8 :=
  match c.remaining with
  | some n => c.source.rest.drop n
  | none => []

/-- The bytes of the request that are not delivered yet. -/
def upcoming (c : Channel) : List UInt8 :=
  c.ahead ++ c.untaken

/-- Whether the input holds less than was declared. -/
def isShort (c : Channel) : Bool :=
  c.remaining.any (c.source.rest.length < ·)

/-- What was reported as not delivered when the channel was closed, newest first. -/
def closings (c : Channel) : List Nat :=
  c.events.filterMap fun event =>
    match event with
    | .closing leftover => some leftover
    | _ => none

/-- Why nothing more can be read at the end of the input. -/
def starvation (c : Channel) : Fault :=
  if c.isShort then .prematureEof else .dataRunoff

/-- The input does not fail, and one of unknown length has ended only when it has given all it holds. -/
structure Steady (c : Channel) : Prop where
  source : c.source.Steady
  ended : c.ended = true → c.remaining = none ∧ c.source.rest = []

theorem untaken_append_beyond (c : Channel) : c.untaken ++ c.beyond = c.source.rest := by
  cases h : c.remaining with
  | some n => simp only [untaken, beyond, h, List.take_append_drop]
  | none => simp only [untaken, beyond, h, List.append_nil]

theorem left_eq (c : Channel) : c.left = c.upcoming.length + c.beyond.length := by
  rw [left, upcoming, ← c.untaken_append_beyond, List.length_append, List.length_append]
  omega

/-! ## What reading leaves alone -/

/-- `d` is reached from `c` by reading. The write side stays as it is, and on the read side bytes only
move from the input into the block. -/
structure Reads (c d : Channel) : Prop where
  sink : d.sink = c.sink
  pending : d.pending = c.pending
  guardByte : d.guardByte = c.guardByte
  size : d.size = c.size
  beyond : d.beyond = c.beyond
  isShort : d.isShort = c.isShort
  taken : d.source.taken + d.untaken.length = c.source.taken + c.untaken.length
  counted : d.remaining.isSome = c.remaining.isSome
  closings : d.closings = c.closings
  block : c.behind.length + c.ahead.length ≤ c.size → d.behind.length + d.ahead.length ≤ d.size
  steady : c.Steady → d.Steady

theorem Reads.refl (c : Channel) : c.Reads c :=
  ⟨rfl, rfl, rfl, rfl, rfl, rfl, rfl, rfl, rfl, id, id⟩

theorem Reads.trans {c d e : Channel} (h : c.Reads d) (h' : d.Reads e) : c.Reads e where
  sink := h'.sink.trans h.sink
  pending := h'.pending.trans h.pending
  guardByte := h'.guardByte.trans h.guardByte
  size := h'.size.trans h.size
  beyond := h'.beyond.trans h.beyond
  isShort := h'.isShort.trans h.isShort
  taken := h'.taken.trans h.taken
  counted := h'.counted.trans h.counted
  closings := h'.closings.trans h.closings
  block := h'.block ∘ h.block
  steady := h'.steady ∘ h.steady

theorem Reads.starvation {c d : Channel} (h : c.Reads d) : d.starvation = c.starvation := by
  rw [Channel.starvation, Channel.starvation, h.isShort]

/-! ## Blocks -/

/-- The channel after a call on the input that gave `bytes`. -/
def loaded (c : Channel) (source : Source) (bytes : List UInt8) : Channel :=
  { c with
    source
    remaining := c.remaining.map (· - bytes.length)
    ended := bytes.isEmpty
    behind := []
    ahead := bytes
    loads := c.loads + 1
    events := .readBlock bytes.length (c.remaining.map (· - bytes.length)) :: c.events }

theorem length_le_remaining {c : Channel} {n : Nat} (hr : c.remaining = some n) {bytes : List UInt8}
    (hl : bytes.length ≤ c.want) : bytes.length ≤ n := by
  simp only [want, hr] at hl
  omega

theorem length_le_size {c : Channel} {bytes : List UInt8} (hl : bytes.length ≤ c.want) :
    bytes.length ≤ c.size := by
  rw [want] at hl
  split at hl <;> omega

theorem untaken_loaded {c : Channel} {s : Source} {bytes : List UInt8} (hg : c.source.Gave bytes s)
    (hl : bytes.length ≤ c.want) : bytes ++ (c.loaded s bytes).untaken = c.untaken := by
  cases hr : c.remaining with
  | none => simp only [untaken, loaded, hr, Option.map_none, hg.rest]
  | some n =>
    have hn := length_le_remaining hr hl
    simp only [untaken, loaded, hr, Option.map_some, hg.rest]
    rw [List.take_append, List.take_of_length_le hn]

theorem beyond_loaded {c : Channel} {s : Source} {bytes : List UInt8} (hg : c.source.Gave bytes s)
    (hl : bytes.length ≤ c.want) : (c.loaded s bytes).beyond = c.beyond := by
  cases hr : c.remaining with
  | none => simp only [beyond, loaded, hr, Option.map_none]
  | some n =>
    have hn := length_le_remaining hr hl
    simp only [beyond, loaded, hr, Option.map_some, hg.rest]
    rw [List.drop_append, List.drop_of_length_le hn, List.nil_append]

theorem isShort_loaded {c : Channel} {s : Source} {bytes : List UInt8} (hg : c.source.Gave bytes s)
    (hl : bytes.length ≤ c.want) : (c.loaded s bytes).isShort = c.isShort := by
  cases hr : c.remaining with
  | none => simp only [isShort, loaded, hr, Option.map_none, Option.any_none]
  | some n =>
    have hn := length_le_remaining hr hl
    simp only [isShort, loaded, hr, Option.map_some, Option.any_some, hg.rest, List.length_append]
    exact decide_eq_decide.mpr (by omega)

theorem want_pos {c : Channel} (h : c.exhausted = false) : 0 < c.want := by
  have hs := c.size_pos
  rw [want]
  split
  · next n hr =>
    have hn : n ≠ 0 := by
      rintro rfl
      simp [exhausted, hr] at h
    omega
  · exact hs

theorem reads_loaded {c : Channel} {s : Source} {bytes : List UInt8}
    (hx : c.exhausted = false) (hread : c.source.read c.want = (.ok bytes, s))
    (hk : (bytes.isEmpty && c.remaining.isSome) = false) : c.Reads (c.loaded s bytes) := by
  obtain ⟨hg, hl⟩ := Source.read_ok hread
  have hu := congrArg List.length (untaken_loaded hg hl)
  rw [List.length_append] at hu
  refine ⟨rfl, rfl, rfl, rfl, beyond_loaded hg hl, isShort_loaded hg hl, ?_, Option.isSome_map, rfl,
    fun _ => ?_, fun hc => ?_⟩
  · have ht : (c.loaded s bytes).source.taken = c.source.taken + bytes.length := hg.taken
    omega
  · have hlen := length_le_size hl
    show 0 + bytes.length ≤ c.size
    omega
  · refine ⟨hc.source.of_suffix hg.script, fun he => ?_⟩
    obtain ⟨bytes', s', hread', hnil⟩ := hc.source.read (want_pos hx)
    rw [hread] at hread'
    cases hread'
    have hb : bytes = [] := List.isEmpty_iff.mp he
    have hrest := hg.rest
    rw [hnil hb, hb] at hrest
    have hr : c.remaining = none := by simpa [hb] using hk
    exact ⟨by simp only [loaded, hr, Option.map_none], hrest.symm⟩

-- A failed call on the input takes nothing.
theorem reads_source {c : Channel} {s : Source} (hg : c.source.Gave [] s) :
    c.Reads { c with source := s } := by
  have hrest : s.rest = c.source.rest := hg.rest.symm
  refine ⟨rfl, rfl, rfl, rfl, ?_, ?_, ?_, rfl, rfl, id,
    fun hc => ⟨hc.source.of_suffix hg.script, fun he => ?_⟩⟩
  · simp only [beyond, hrest]
  · simp only [isShort, hrest]
  · have htaken : s.taken = c.source.taken := hg.taken
    simp only [untaken, hrest, htaken]
  · exact ⟨(hc.ended he).1, hrest.trans (hc.ended he).2⟩

theorem upcoming_source {c : Channel} {s : Source} (hg : c.source.Gave [] s) :
    ({ c with source := s } : Channel).upcoming = c.upcoming := by
  have hrest : s.rest = c.source.rest := hg.rest.symm
  simp only [upcoming, untaken, hrest]

/-- Reading a block in place of a delivered one loses nothing. -/
theorem refill_ok {c d : Channel} {n : Nat} (h : refill c = .ok n d) (ha : c.ahead = []) :
    c.Reads d ∧ d.upcoming = c.upcoming ∧ d.ahead.length = n := by
  rw [refill] at h
  split at h
  · cases h
    exact ⟨Reads.refl c, rfl, by rw [ha, List.length_nil]⟩
  · next hx =>
    have hx' : c.exhausted = false := eq_false_of_ne_true hx
    split at h
    · cases h
    · next bytes s hread =>
      split at h
      · cases h
      · next hk =>
        cases h
        obtain ⟨hg, hl⟩ := Source.read_ok hread
        refine ⟨reads_loaded hx' hread (eq_false_of_ne_true hk), ?_, rfl⟩
        show bytes ++ (c.loaded s bytes).untaken = c.ahead ++ c.untaken
        rw [untaken_loaded hg hl, ha, List.nil_append]

theorem refill_error {c d : Channel} {fault : Fault} (h : refill c = .error fault d) :
    c.Reads d ∧ d.upcoming = c.upcoming := by
  rw [refill] at h
  split at h
  · cases h
  · split at h
    · next text s hread =>
      cases h
      exact ⟨reads_source (Source.read_error hread), upcoming_source (Source.read_error hread)⟩
    · next bytes s hread =>
      split at h
      · next hb =>
        cases h
        obtain ⟨hg, -⟩ := Source.read_ok hread
        rw [Bool.and_eq_true, List.isEmpty_iff] at hb
        rw [hb.1] at hg
        exact ⟨reads_source hg, upcoming_source hg⟩
      · cases h

-- Over a steady input a block is read unless the request has ended.
theorem Steady.refill {c : Channel} (h : c.Steady) (hu : c.untaken ≠ []) :
    ∃ n d, refill c = .ok n d ∧ d.ahead ≠ [] := by
  have hrest : c.source.rest ≠ [] := by
    intro hr
    rw [untaken, hr] at hu
    split at hu <;> simp at hu
  have hx : c.exhausted = false := by
    rw [exhausted, Bool.or_eq_false_iff]
    refine ⟨eq_false_of_ne_true fun he => hrest (h.ended he).2, ?_⟩
    rw [beq_eq_false_iff_ne]
    intro hr
    simp [untaken, hr] at hu
  obtain ⟨bytes, s, hread, hnil⟩ := h.source.read (want_pos hx)
  have hb : bytes ≠ [] := fun hb => hrest (hnil hb)
  refine ⟨bytes.length, c.loaded s bytes, ?_, hb⟩
  rw [Channel.refill, if_neg (by rw [hx]; decide), hread]
  have : bytes.isEmpty = false := by simpa using hb
  simp only [this, Bool.false_and, Bool.false_eq_true, if_false]
  rw [loaded, this]

-- At the end of the request a steady input gives an empty block, or fails where more was declared.
theorem Steady.refill_end {c : Channel} (h : c.Steady) (ha : c.ahead = []) (hu : c.untaken = []) :
    (∃ d, Channel.refill c = .ok 0 d ∧ d.ahead = [] ∧ d.exhausted = true ∧ c.isShort = false) ∨
      ∃ d, Channel.refill c = .error .prematureEof d ∧ d.ahead = [] ∧ c.isShort = true := by
  cases hx : c.exhausted with
  | true =>
    refine .inl ⟨c, by rw [Channel.refill, if_pos hx], ha, hx, ?_⟩
    cases hr : c.remaining with
    | none => simp only [isShort, hr, Option.any_none]
    | some n =>
      have he : c.ended = false := by
        refine eq_false_of_ne_true fun he => ?_
        rw [(h.ended he).1] at hr
        cases hr
      have hn : n = 0 := by simpa [exhausted, he, hr] using hx
      simp only [isShort, hr, hn, Option.any_some, Nat.not_lt_zero, decide_false]
  | false =>
    -- The input has to be asked once more: without a declared length this is how the end is found, with one
    -- it is how a short input shows.
    obtain ⟨bytes, s, hread, hnil⟩ := h.source.read (want_pos hx)
    obtain ⟨hg, hl⟩ := Source.read_ok hread
    have hb : bytes = [] := List.append_eq_nil_iff.mp ((untaken_loaded hg hl).trans hu) |>.1
    have hrest := hnil hb
    subst hb
    cases hr : c.remaining with
    | none =>
      refine .inl ⟨c.loaded s [], ?_, rfl, rfl, by simp only [isShort, hr, Option.any_none]⟩
      rw [Channel.refill, if_neg (by rw [hx]; decide), hread]
      simp only [hr, List.isEmpty_nil, Option.isSome_none, Bool.and_false, Bool.false_eq_true,
        if_false, loaded, List.length_nil]
    | some n =>
      have hn : n ≠ 0 := by
        rintro rfl
        simp [exhausted, hr] at hx
      refine .inr ⟨{ c with source := s }, ?_, ha, ?_⟩
      · rw [Channel.refill, if_neg (by rw [hx]; decide), hread]
        simp only [hr, List.isEmpty_nil, Option.isSome_some, Bool.and_self, if_true]
      · simp only [isShort, hr, hrest, Option.any_some, List.length_nil, decide_eq_true_eq]
        omega

/-! ## Bytes -/

theorem takeByte_eq_some {c d : Channel} {b : UInt8} (h : c.takeByte = some (b, d)) :
    c.Reads d ∧ c.upcoming = b :: d.upcoming := by
  rw [takeByte] at h
  split at h
  · next b' ahead ha =>
    cases h
    refine ⟨⟨rfl, rfl, rfl, rfl, rfl, rfl, rfl, rfl, rfl, fun hb => ?_,
      fun hc => ⟨hc.source, hc.ended⟩⟩, ?_⟩
    · rw [ha] at hb
      simp only [List.length_cons] at hb ⊢
      omega
    · simp only [upcoming, untaken, ha, List.cons_append]
  · cases h

theorem takeByte_eq_none {c : Channel} (h : c.takeByte = none) : c.ahead = [] := by
  rw [takeByte] at h
  split at h
  · cases h
  · assumption

theorem getByte_ok {c d : Channel} {b : UInt8} (h : getByte c = .ok b d) :
    c.Reads d ∧ c.upcoming = b :: d.upcoming := by
  rw [getByte] at h
  split at h
  · next ht =>
    cases h
    exact takeByte_eq_some ht
  · next ht =>
    have ha := takeByte_eq_none ht
    split at h
    · cases h
    · next hr =>
      obtain ⟨hreads, hu, -⟩ := refill_ok hr ha
      split at h
      · next ht' =>
        cases h
        obtain ⟨hreads', hu'⟩ := takeByte_eq_some ht'
        exact ⟨hreads.trans hreads', hu ▸ hu'⟩
      · cases h

theorem getByte_error {c d : Channel} {fault : Fault} (h : getByte c = .error fault d) :
    c.Reads d ∧ d.upcoming = c.upcoming := by
  rw [getByte] at h
  split at h
  · cases h
  · next ht =>
    have ha := takeByte_eq_none ht
    split at h
    · next hr =>
      cases h
      exact refill_error hr
    · next hr =>
      obtain ⟨hreads, hu, -⟩ := refill_ok hr ha
      split at h
      · cases h
      · cases h
        exact ⟨hreads, hu⟩

theorem takeByte_of_ahead {c : Channel} (h : c.ahead ≠ []) : ∃ b d, c.takeByte = some (b, d) := by
  cases ha : c.ahead with
  | nil => exact absurd ha h
  | cons b ahead =>
    refine ⟨b, { c with behind := b :: c.behind, ahead }, ?_⟩
    simp only [takeByte, ha]

theorem takeByte_of_nil {c : Channel} (h : c.ahead = []) : c.takeByte = none := by
  simp only [takeByte, h]

-- Over a steady input the next byte is delivered if there is one.
theorem Steady.getByte {c : Channel} (h : c.Steady) (hu : c.upcoming ≠ []) :
    ∃ b d, Channel.getByte c = .ok b d := by
  by_cases ha : c.ahead = []
  · have hu' : c.untaken ≠ [] := by rwa [upcoming, ha, List.nil_append] at hu
    obtain ⟨n, d, hr, hd⟩ := h.refill hu'
    obtain ⟨b, e, ht⟩ := takeByte_of_ahead hd
    exact ⟨b, e, by simp only [Channel.getByte, takeByte_of_nil ha, hr, ht]⟩
  · obtain ⟨b, d, ht⟩ := takeByte_of_ahead ha
    exact ⟨b, d, by simp only [Channel.getByte, ht]⟩

-- Over a steady input a read fails at the end as the length that was declared tells.
theorem Steady.getByte_end {c : Channel} (h : c.Steady) (hu : c.upcoming = []) :
    ∃ d, Channel.getByte c = .error c.starvation d := by
  obtain ⟨ha, hu'⟩ := List.append_eq_nil_iff.mp hu
  rcases h.refill_end ha hu' with ⟨d, hr, hd, -, hs⟩ | ⟨d, hr, -, hs⟩
  · refine ⟨d, ?_⟩
    simp only [Channel.getByte, takeByte_of_nil ha, hr, takeByte_of_nil hd, starvation, hs,
      Bool.false_eq_true, if_false]
  · refine ⟨d, ?_⟩
    simp only [Channel.getByte, takeByte_of_nil ha, hr, starvation, hs, if_true]

-- Over a steady input the first byte of what is upcoming is delivered.
theorem Steady.getByte_cons {c : Channel} (h : c.Steady) {b : UInt8} {rest : List UInt8}
    (hu : c.upcoming = b :: rest) :
    ∃ d, Channel.getByte c = .ok b d ∧ c.Reads d ∧ d.upcoming = rest := by
  obtain ⟨b', d, hget⟩ := h.getByte (by rw [hu]; exact List.cons_ne_nil _ _)
  obtain ⟨hreads, hu'⟩ := getByte_ok hget
  rw [hu] at hu'
  cases hu'
  exact ⟨d, hget, hreads, rfl⟩

/-! ## Runs of bytes -/

theorem getBytesOnto_ok {n : Nat} {got bytes : List UInt8} {c d : Channel}
    (h : getBytesOnto n got c = .ok bytes d) :
    c.Reads d ∧ ∃ new, bytes = got.reverse ++ new ∧ new.length = n ∧ c.upcoming = new ++ d.upcoming := by
  induction n generalizing got c with
  | zero =>
    cases h
    exact ⟨Reads.refl _, [], by rw [List.append_nil], rfl, rfl⟩
  | succ n ih =>
    obtain ⟨b, e, hb, hrest⟩ := bind_eq_ok.mp h
    obtain ⟨hreads, hu⟩ := getByte_ok hb
    obtain ⟨hreads', new, hbytes, hlen, hu'⟩ := ih hrest
    refine ⟨hreads.trans hreads', b :: new, ?_, by rw [List.length_cons, hlen], ?_⟩
    · rw [hbytes, List.reverse_cons, List.append_assoc, List.singleton_append]
    · rw [hu, hu', List.cons_append]

/-- The bytes read are the next ones. -/
theorem getBytes_ok {n : Nat} {bytes : List UInt8} {c d : Channel} (h : getBytes n c = .ok bytes d) :
    c.Reads d ∧ bytes.length = n ∧ c.upcoming = bytes ++ d.upcoming := by
  obtain ⟨hreads, new, rfl, hlen, hu⟩ := getBytesOnto_ok h
  exact ⟨hreads, hlen, hu⟩

theorem keeps_getByte : Keeps Reads getByte :=
  keeps_of_cases (fun h => (getByte_ok h).1) fun h => (getByte_error h).1

-- What reading a byte keeps is kept by reading several.
theorem keeps_getBytesOnto_of {R : Channel → Channel → Prop} (hr : ∀ c, R c c)
    (ht : ∀ {c d e}, R c d → R d e → R c e) (hbyte : Keeps R getByte) (n : Nat) (got : List UInt8) :
    Keeps R (getBytesOnto n got) := by
  induction n generalizing got with
  | zero => exact keeps_pure hr _
  | succ n ih => exact hbyte.bind ht fun b => ih (b :: got)

theorem keeps_getBytesOnto (n : Nat) (got : List UInt8) : Keeps Reads (getBytesOnto n got) :=
  keeps_getBytesOnto_of Reads.refl Reads.trans keeps_getByte n got

theorem keeps_getBytes (n : Nat) : Keeps Reads (getBytes n) :=
  keeps_getBytesOnto n []

theorem Steady.getBytesOnto_append {c : Channel} (h : c.Steady) {bytes rest : List UInt8}
    (hu : c.upcoming = bytes ++ rest) (got : List UInt8) :
    ∃ d, getBytesOnto bytes.length got c = .ok (got.reverse ++ bytes) d := by
  induction bytes generalizing c got with
  | nil => exact ⟨_, by rw [List.append_nil]; rfl⟩
  | cons b bytes ih =>
    obtain ⟨d, hget, hreads, hu'⟩ := h.getByte_cons hu
    obtain ⟨e, he⟩ := ih (hreads.steady h) hu' (b :: got)
    refine ⟨e, ?_⟩
    rw [List.length_cons, getBytesOnto, bind_of_ok hget, he, List.reverse_cons, List.append_assoc,
      List.singleton_append]

/-- Over a steady input as many bytes are delivered as there are. -/
theorem Steady.getBytes_append {c : Channel} (h : c.Steady) {bytes rest : List UInt8}
    (hu : c.upcoming = bytes ++ rest) :
    ∃ d, getBytes bytes.length c = .ok bytes d ∧ c.Reads d ∧ d.upcoming = rest := by
  obtain ⟨d, hd⟩ := h.getBytesOnto_append hu []
  obtain ⟨hreads, -, hu'⟩ := getBytes_ok hd
  exact ⟨d, hd, hreads, (List.append_cancel_left (hu.symm.trans hu')).symm⟩

/-! ## Numbers -/

theorem getUInt16_ok {n : UInt16} {c d : Channel} (h : getUInt16 c = .ok n d) :
    c.Reads d ∧ c.upcoming = Wire.ofUInt16 n ++ d.upcoming := by
  obtain ⟨bytes, e, hbytes, hn⟩ := bind_eq_ok.mp h
  cases hn
  obtain ⟨hreads, hlen, hu⟩ := getBytes_ok hbytes
  exact ⟨hreads, by rw [Wire.ofUInt16_toUInt16 hlen, hu]⟩

theorem getUInt32_ok {n : UInt32} {c d : Channel} (h : getUInt32 c = .ok n d) :
    c.Reads d ∧ c.upcoming = Wire.ofUInt32 n ++ d.upcoming := by
  obtain ⟨bytes, e, hbytes, hn⟩ := bind_eq_ok.mp h
  cases hn
  obtain ⟨hreads, hlen, hu⟩ := getBytes_ok hbytes
  exact ⟨hreads, by rw [Wire.ofUInt32_toUInt32 hlen, hu]⟩

theorem keeps_getUInt16 : Keeps Reads getUInt16 :=
  (keeps_getBytes 2).bind Reads.trans fun _ => keeps_pure Reads.refl _

theorem keeps_getUInt32 : Keeps Reads getUInt32 :=
  (keeps_getBytes 4).bind Reads.trans fun _ => keeps_pure Reads.refl _

theorem Steady.getUInt16_append {c : Channel} (h : c.Steady) {n : UInt16} {rest : List UInt8}
    (hu : c.upcoming = Wire.ofUInt16 n ++ rest) :
    ∃ d, getUInt16 c = .ok n d ∧ c.Reads d ∧ d.upcoming = rest := by
  obtain ⟨d, hd, hreads, hu'⟩ := h.getBytes_append hu
  refine ⟨d, ?_, hreads, hu'⟩
  rw [Wire.length_ofUInt16] at hd
  rw [getUInt16, bind_of_ok hd, Wire.toUInt16_ofUInt16]
  rfl

theorem Steady.getUInt32_append {c : Channel} (h : c.Steady) {n : UInt32} {rest : List UInt8}
    (hu : c.upcoming = Wire.ofUInt32 n ++ rest) :
    ∃ d, getUInt32 c = .ok n d ∧ c.Reads d ∧ d.upcoming = rest := by
  obtain ⟨d, hd, hreads, hu'⟩ := h.getBytes_append hu
  refine ⟨d, ?_, hreads, hu'⟩
  rw [Wire.length_ofUInt32] at hd
  rw [getUInt32, bind_of_ok hd, Wire.toUInt32_ofUInt32]
  rfl

/-! ## Fresh channels -/

-- A fresh channel over a steady input is steady.
theorem steady_opened {source : Source} (h : source.Steady) (sink : Sink) (declared : Option Nat)
    (bufferSize : Nat) : (opened source sink declared bufferSize).Steady :=
  ⟨h, fun he => nomatch he⟩

-- A fresh channel is not short when the input holds what was declared.
theorem whole_opened {source : Source} (sink : Sink) {declared : Option Nat}
    (hd : ∀ n ∈ declared, n ≤ source.rest.length) (bufferSize : Nat) :
    (opened source sink declared bufferSize).isShort = false := by
  cases declared with
  | none => rfl
  | some n => exact decide_eq_false (Nat.not_lt.mpr (hd n rfl))

end Ipp.Channel
