import Ipp.Proofs.Channel.Position
import Ipp.Proofs.Channel.Sending

/-!
# From one channel to another

Values that are put into one channel and sent are read from the bytes sent, through another channel,
wherever the two buffers break them up (`values_relayed`). Nothing is left then, so that the next read fails.
-/

namespace Ipp.Channel

open Calls

/-! ## One value -/

/-- What is put in one call: a primitive, or a text, which is read as its bytes. -/
inductive Item where
  | primitive (p : Primitive)
  | text (s : String)
  deriving DecidableEq

namespace Item

def put : Item → Action Unit
  | primitive p => p.put
  | text s => putText s

/-- The value that is read. -/
def value : Item → Primitive
  | primitive p => p
  | text s => .bytes (Text.utf8 s)

theorem put_eq (i : Item) : i.put = putBytes i.value.wire := by
  cases i with
  | primitive p => exact p.put_eq
  | text s => rfl

end Item

theorem Primitive.length_wire (p : Primitive) : p.wire.length = p.shape.width := by
  cases p <;> rfl

theorem Primitive.decode_wire (p : Primitive) : p.shape.decode p.wire = p := by
  cases p with
  | byte b => rfl
  | int8 n => rfl
  | uint16 n => exact congrArg _ (Wire.toUInt16_ofUInt16 n)
  | int32 n => exact congrArg _ (Wire.toInt32_ofInt32 n)
  | bytes bs => rfl

/-- Over a steady input a value is read where its bytes come next. -/
theorem Steady.get_wire {c : Channel} (h : c.Steady) {p : Primitive} {rest : List UInt8}
    (hu : c.upcoming = p.wire ++ rest) :
    ∃ d, p.shape.get c = .ok p d ∧ d.Steady ∧ d.upcoming = rest := by
  obtain ⟨d, hget, hreads, hrest⟩ := h.getBytes_append hu
  refine ⟨d, ?_, hreads.steady h, hrest⟩
  rw [Shape.get_eq, ← p.length_wire, bind_of_ok hget, p.decode_wire]
  rfl

/-! ## Values in sequence -/

/-- The bytes of values one behind the other. -/
def wireAll (ps : List Primitive) : List UInt8 :=
  ps.flatMap Primitive.wire

def putAll : List Item → Action Unit
  | [] => pure ()
  | i :: items => do
    i.put
    putAll items

def getAll : List Shape → Action (List Primitive)
  | [] => pure []
  | s :: shapes => do
    let p ← s.get
    return p :: (← getAll shapes)

/-- While the channel is open everything can be put, and comes behind what was put before. -/
theorem Open.putAll {c : Channel} (h : c.Open) (items : List Item) :
    ∃ d, Channel.putAll items c = .ok () d ∧ d.Open ∧
      d.produced = c.produced ++ wireAll (items.map Item.value) := by
  induction items generalizing c with
  | nil => exact ⟨c, rfl, h, (List.append_nil _).symm⟩
  | cons i items ih =>
    obtain ⟨d, hput⟩ := h.putBytes i.value.wire
    obtain ⟨hsends, hd⟩ := putBytes_ok hput
    obtain ⟨e, hrest, hopen, he⟩ := ih (hsends.isOpen h)
    refine ⟨e, ?_, hopen, ?_⟩
    · rw [Channel.putAll, i.put_eq, bind_of_ok hput, hrest]
    · rw [he, hd, List.append_assoc]
      rfl

/-- Over a steady input values are read where their bytes come next. -/
theorem Steady.getAll_wire {c : Channel} (h : c.Steady) {ps : List Primitive} {rest : List UInt8}
    (hu : c.upcoming = wireAll ps ++ rest) :
    ∃ d, getAll (ps.map Primitive.shape) c = .ok ps d := by
  induction ps generalizing c with
  | nil => exact ⟨c, rfl⟩
  | cons p ps ih =>
    have hnext : c.upcoming = p.wire ++ (wireAll ps ++ rest) := hu.trans (List.append_assoc ..)
    obtain ⟨d, hget, hsteady, hrest⟩ := h.get_wire hnext
    obtain ⟨e, hgets⟩ := ih hsteady hrest
    exact ⟨e, by rw [List.map_cons, getAll, bind_of_ok hget, bind_of_ok hgets]; rfl⟩

-- What is read is what the channel has passed over.
theorem getAll_passes {shapes : List Shape} {ps : List Primitive} {c d : Channel}
    (h : getAll shapes c = .ok ps d) : c.Passes (wireAll ps) d := by
  induction shapes generalizing c ps with
  | nil =>
    cases h
    exact .refl _
  | cons s shapes ih =>
    obtain ⟨p, e, hp, h⟩ := bind_eq_ok.mp h
    obtain ⟨ps', e', hps, h⟩ := bind_eq_ok.mp h
    cases h
    exact (Shape.get_passes hp).2.trans (ih hps)

/-! ## Reading to the end -/

-- When as much as was declared is passed over, nothing is left to be read.
theorem Passes.used_up {c d : Channel} {passed : List UInt8} (h : c.Passes passed d) (ha : c.ahead = [])
    (hr : c.remaining = some passed.length) : d.remaining = some 0 ∧ d.ahead = [] := by
  have htaken := h.taken
  have hdeclared := h.declared
  rw [hr] at hdeclared
  obtain ⟨n, hn, hsum⟩ : ∃ n, d.remaining = some n ∧ d.source.taken + n = c.source.taken + passed.length :=
    Option.map_eq_some_iff.mp hdeclared
  rw [ha, List.length_nil] at htaken
  have hnone : n = 0 ∧ d.ahead.length = 0 := by omega
  exact ⟨by rw [hn, hnone.1], List.length_eq_zero_iff.mp hnone.2⟩

theorem AtEnd.getByte {c : Channel} (h : c.AtEnd) : Channel.getByte c = .error .dataRunoff c := by
  have hrefill : refill c = .ok 0 c := if_pos h.exhausted
  simp only [Channel.getByte, takeByte_of_nil h.ahead, hrefill]

/-- Values are read from an input that holds their bytes and no others, and nothing is left. -/
theorem getAll_opened {ps : List Primitive} {source : Source} (hsource : source.Steady)
    (hrest : source.rest = wireAll ps) (sink : Sink) (bufferSize : Nat) :
    ∃ d, getAll (ps.map Primitive.shape) (opened source sink (some (wireAll ps).length) bufferSize) =
        .ok ps d ∧
      d.remaining = some 0 ∧ d.buffered = 0 ∧ getByte d = .error .dataRunoff d := by
  have hsteady := steady_opened hsource sink (some (wireAll ps).length) bufferSize
  have hupcoming :
      (opened source sink (some (wireAll ps).length) bufferSize).upcoming = wireAll ps ++ [] := by
    show source.rest.take (wireAll ps).length = _
    rw [hrest, List.take_length, List.append_nil]
  obtain ⟨d, hget⟩ := hsteady.getAll_wire hupcoming
  obtain ⟨hremaining, hahead⟩ := (getAll_passes hget).used_up rfl rfl
  have hend : d.AtEnd := ⟨hahead, by simp [exhausted, hremaining]⟩
  exact ⟨d, hget, hremaining, by rw [buffered, hahead, List.length_nil], hend.getByte⟩

/-! ## From one channel to the other -/

/-- What is put into one channel is read through another, in the same order and with the same values,
whatever the sizes of the buffers are and however much each call on the streams moves. -/
theorem values_relayed (items : List Item) (source : Source) {sink : Sink} (hsink : sink.Steady)
    (declared : Option Nat) (bufferSize : Nat) :
    ∃ c bytes, (do putAll items; flush) (opened source sink declared bufferSize) = .ok () c ∧
      c.sink.bytes = sink.bytes ++ bytes ∧ c.pending = #[] ∧
      ∀ source' : Source, source'.Steady → source'.rest = bytes → ∀ (sink' : Sink) (bufferSize' : Nat),
        ∃ d, getAll (items.map (·.value.shape)) (opened source' sink' (some bytes.length) bufferSize') =
            .ok (items.map Item.value) d ∧
          d.remaining = some 0 ∧ d.buffered = 0 ∧ getByte d = .error .dataRunoff d := by
  obtain ⟨c, hput, hopen, hc⟩ := (open_opened source hsink declared bufferSize).putAll items
  obtain ⟨d, hflush⟩ := hopen.flush
  obtain ⟨-, hbytes, hpending⟩ := flush_ok hflush
  have hsent : d.sink.bytes = sink.bytes ++ wireAll (items.map Item.value) := by
    rw [hbytes, hc, produced]
    exact congrArg (· ++ _) (List.append_nil _)
  refine ⟨d, _, by rw [bind_of_ok hput, hflush], hsent, hpending,
    fun source' hsource hrest sink' bufferSize' => ?_⟩
  have hread := getAll_opened hsource hrest sink' bufferSize'
  rwa [List.map_map] at hread

/-- Values of four kinds. -/
def mixedItems : List Item :=
  [.primitive (.int8 (-1)), .text "é", .primitive (.int32 (-2)), .primitive (.bytes [7])]

/-- Buffers of three bytes and of two break them up at different places. -/
theorem mixed_values_relayed :
    ∃ c d, (do putAll mixedItems; flush)
        (opened { rest := [] } { script := [.upTo 1, .interrupted, .upTo 1] } none 3) = .ok () c ∧
      c.sink.bytes = [255, 195, 169, 255, 255, 255, 254, 7] ∧
      getAll [.int8, .bytes 2, .int32, .bytes 1]
          (opened { rest := c.sink.bytes, script := [.upTo 1, .interrupted] } {} (some 8) 2) =
        .ok [.int8 (-1), .bytes [195, 169], .int32 (-2), .bytes [7]] d ∧
      d.buffered = 0 ∧ getByte d = .error .dataRunoff d := by
  have hsink : ({ script := [.upTo 1, .interrupted, .upTo 1] } : Sink).Steady := by decide
  obtain ⟨c, bytes, hput, hsent, -, hread⟩ := values_relayed mixedItems { rest := [] } hsink none 3
  have hbytes : c.sink.bytes = [255, 195, 169, 255, 255, 255, 254, 7] := by
    have hrun : (final ((do putAll mixedItems; flush)
        (opened { rest := [] } { script := [.upTo 1, .interrupted, .upTo 1] } none 3))).sink.bytes =
        [255, 195, 169, 255, 255, 255, 254, 7] := by decide +kernel
    rw [hput] at hrun
    exact hrun
  have hsame : bytes = [255, 195, 169, 255, 255, 255, 254, 7] := hsent.symm.trans hbytes
  subst hsame
  have hsource : ∀ event ∈ [ReadEvent.upTo 1, .interrupted], event.isSteady = true := by decide
  obtain ⟨d, hget, -, hbuffered, hend⟩ :=
    hread { rest := c.sink.bytes, script := [.upTo 1, .interrupted] } hsource hbytes {} 2
  exact ⟨c, d, hput, hbytes, hget, hbuffered, hend⟩

end Ipp.Channel
