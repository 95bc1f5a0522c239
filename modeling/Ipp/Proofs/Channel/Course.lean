import Ipp.Proofs.Channel.Copying
import Ipp.Proofs.Channel.Sending

/-!
# Staying in step with the input

The output may fail at any point. Sending then has still left the read side alone and the guard intact,
provided that there was room in the buffer when it began, so that the rest of the request is taken in the
end whatever became of the reply.
-/

namespace Ipp.Channel

open Calls

/-! ## Sending that may fail -/

/-- `d` is `c` but for the output, what is pending, and what was reported. -/
def Spares (c d : Channel) : Prop :=
  ∃ sink pending events, d = { c with sink, pending, events }

/-- There is room for another byte in front of the guard. -/
def HasRoom (c : Channel) : Prop :=
  c.pending.size < c.size

theorem Spares.refl (c : Channel) : c.Spares c :=
  ⟨c.sink, c.pending, c.events, rfl⟩

/-- A call made with room in the buffer leaves room when it succeeds, and even when it fails it changes only
the output, what is pending, and what was reported. -/
def KeepsRoom (x : Action Unit) : Prop :=
  ∀ c : Channel, Ends (fun d => c.Spares d ∧ d.HasRoom) x (fun _ d => c.Spares d ∧ d.HasRoom)
    (fun _ d => c.Spares d)

theorem KeepsRoom.spares {x : Action Unit} (h : KeepsRoom x) {c : Channel} (hroom : c.HasRoom) :
    c.Spares (final (x c)) := by
  have hstart : c.Spares c ∧ c.HasRoom := ⟨.refl c, hroom⟩
  cases hx : x c with
  | ok a d => exact ((h c).ok hstart hx).1
  | error fault d => exact (h c).error hstart hx

theorem keepsRoom_pure : KeepsRoom (pure ()) :=
  fun _ => ends_pure fun _ h => h

theorem keepsRoom_throw (fault : Fault) : KeepsRoom (throw fault) :=
  fun _ => ends_throw fun _ h => h.1

theorem KeepsRoom.bind {x y : Action Unit} (hx : KeepsRoom x) (hy : KeepsRoom y) :
    KeepsRoom (do x; y) :=
  fun c => (hx c).bind fun _ => hy c

-- What was pending is gone or stays pending.
theorem ends_send (c : Channel) :
    Ends c.Spares send (fun _ d => c.Spares d ∧ d.HasRoom) (fun _ d => c.Spares d) := by
  rintro _ ⟨sink, pending, events, rfl⟩
  unfold send
  rcases Sink.offer _ _ with ⟨_ | ⟨⟩, sink'⟩
  · exact ⟨sink', pending, events, rfl⟩
  · exact ⟨⟨sink', #[], _, rfl⟩, c.size_pos⟩

theorem keepsRoom_send : KeepsRoom send :=
  fun c d hd => ends_send c d hd.1

theorem keepsRoom_putByte (b : UInt8) : KeepsRoom (putByte b) := by
  rintro c _ ⟨⟨sink, pending, events, rfl⟩, hroom⟩
  have hover : ¬c.size < pending.size := Nat.not_lt.mpr (Nat.le_of_lt hroom)
  -- The byte is put in front of the guard, since there is room.
  have hpushed : c.Spares (pushed { c with sink, pending, events } b) := by
    refine ⟨sink, pending.push b, events, ?_⟩
    rw [pushed, if_neg (Nat.ne_of_lt hroom)]
  rw [putByte_eq, if_neg hover]
  by_cases hfull : (pushed { c with sink, pending, events } b).pending.size = c.size
  · rw [if_pos hfull]
    exact ends_send c _ hpushed
  · rw [if_neg hfull]
    refine ⟨hpushed, ?_⟩
    have hsize : (pushed { c with sink, pending, events } b).pending.size = pending.size + 1 :=
      Array.size_push b
    have hlt : pending.size < c.size := hroom
    show (pushed { c with sink, pending, events } b).pending.size < c.size
    omega

theorem keepsRoom_putBytes (bytes : List UInt8) : KeepsRoom (putBytes bytes) := by
  induction bytes with
  | nil => exact keepsRoom_pure
  | cons b bytes ih => exact (keepsRoom_putByte b).bind ih

theorem ends_flush (c : Channel) :
    Ends c.Spares flush (fun _ d => c.Spares d ∧ d.HasRoom) (fun _ d => c.Spares d) := by
  refine (ends_send c).bind fun _ => ?_
  rintro _ ⟨⟨sink, pending, events, rfl⟩, hroom⟩
  dsimp only
  rcases Sink.flush _ with ⟨_ | ⟨⟩, sink'⟩
  · exact ⟨sink', pending, events, rfl⟩
  · exact ⟨⟨sink', pending, events, rfl⟩, hroom⟩

-- Flushing spares the rest even where there was no room.
theorem spares_flush (c : Channel) : c.Spares (final (flush c)) := by
  cases hf : flush c with
  | ok a d => exact ((ends_flush c).ok (.refl c) hf).1
  | error fault d => exact (ends_flush c).error (.refl c) hf

theorem keepsRoom_flush : KeepsRoom flush :=
  fun c d hd => ends_flush c d hd.1

theorem keepsRoom_sendThrough (bytes : List UInt8) : KeepsRoom (sendThrough bytes) := by
  rintro c _ ⟨⟨sink, pending, events, rfl⟩, hroom⟩
  unfold sendThrough
  rcases Sink.offer _ _ with ⟨_ | ⟨⟩, sink'⟩
  · exact ⟨sink', pending, events, rfl⟩
  · exact ⟨⟨sink', pending, events, rfl⟩, hroom⟩

theorem keepsRoom_sendBlocksWithin (bound : Nat) (bytes : List UInt8) :
    KeepsRoom (sendBlocksWithin bound bytes) := by
  induction bound generalizing bytes with
  | zero => exact keepsRoom_pure
  | succ bound ih => exact (keepsRoom_sendThrough _).bind (ih _)

theorem keepsRoom_copyFile (content : List UInt8) : KeepsRoom (copyFile content) :=
  keepsRoom_send.bind (keepsRoom_sendBlocksWithin _ content)

/-! ## The course -/

/-- What is left of the request can be taken from the input: it ends when `n` bytes were taken, and then
`rest` is left. -/
structure OnCourse (n : Nat) (rest : List UInt8) (c : Channel) : Prop where
  steady : c.Steady
  whole : c.isShort = false
  intact : c.Intact
  taken : c.source.taken + c.untaken.length = n
  beyond : c.beyond = rest

variable {n : Nat} {rest : List UInt8} {c d : Channel}

theorem OnCourse.of_reads (h : c.OnCourse n rest) (hr : c.Reads d) : d.OnCourse n rest where
  steady := hr.steady h.steady
  whole := hr.isShort.trans h.whole
  intact := ⟨hr.block h.intact.block, hr.guardByte.trans h.intact.guardByte⟩
  taken := hr.taken.trans h.taken
  beyond := hr.beyond.trans h.beyond

theorem spares_reportClosing (c : Channel) : c.Spares c.reportClosing :=
  ⟨c.sink, c.pending, _, rfl⟩

theorem OnCourse.of_spares (h : c.OnCourse n rest) (hs : c.Spares d) : d.OnCourse n rest := by
  rcases hs with ⟨sink, pending, events, rfl⟩
  exact ⟨⟨h.steady.source, h.steady.ended⟩, h.whole, ⟨h.intact.block, h.intact.guardByte⟩, h.taken,
    h.beyond⟩

theorem HasRoom.of_reads (h : c.HasRoom) (hr : c.Reads d) : d.HasRoom := by
  rw [HasRoom, hr.pending, hr.size]
  exact h

/-- The input stands at the end of the request: `n` bytes were taken and `rest` is left. -/
structure StandsAt (n : Nat) (rest : List UInt8) (c : Channel) : Prop where
  taken : c.source.taken = n
  rest : c.source.rest = rest

-- Flushing may fail, but not before the request was taken to its end.
theorem OnCourse.finish (h : c.OnCourse n rest) : (final (Channel.finish c)).StandsAt n rest := by
  obtain ⟨d, heq, hreads, hnil⟩ := h.steady.finish_eq h.whole h.intact
  have hclosing : c.reportClosing.OnCourse n rest := h.of_spares c.spares_reportClosing
  have hd := hclosing.of_reads hreads
  have huntaken : d.untaken = [] := (List.append_eq_nil_iff.mp hnil).2
  obtain ⟨sink, pending, events, hfinal⟩ := d.spares_flush
  rw [heq, hfinal]
  constructor
  · have htaken := hd.taken
    rw [huntaken] at htaken
    exact htaken
  · have hsplit := d.untaken_append_beyond
    rw [huntaken, List.nil_append, hd.beyond] at hsplit
    exact hsplit.symm

/-! ## Fresh channels -/

-- A fresh channel over a steady input that holds what was declared.
theorem onCourse_opened {source : Source} (hs : source.Steady) (hfresh : source.taken = 0) (sink : Sink)
    {declared : Option Nat} (hd : ∀ n ∈ declared, n ≤ source.rest.length) (bufferSize : Nat) :
    (opened source sink declared bufferSize).OnCourse (declared.getD source.rest.length)
      (source.rest.drop (declared.getD source.rest.length)) where
  steady := steady_opened hs sink declared bufferSize
  whole := whole_opened sink hd bufferSize
  intact := ⟨Nat.zero_le _, rfl⟩
  taken := by
    show source.taken + _ = _
    rw [hfresh, Nat.zero_add]
    cases declared with
    | none => rfl
    | some n => exact List.length_take_of_le (hd n rfl)
  beyond := by
    cases declared with
    | none => exact List.drop_length.symm
    | some n => rfl

theorem hasRoom_opened (source : Source) (sink : Sink) (declared : Option Nat) (bufferSize : Nat) :
    (opened source sink declared bufferSize).HasRoom :=
  (opened source sink declared bufferSize).size_pos

end Ipp.Channel
