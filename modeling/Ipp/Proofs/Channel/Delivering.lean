import Ipp.Proofs.Channel.Rewinding

/-!
# Handing over what was declared

Where the length of the request is known, handing over its rest succeeds only when the input has given all
of it. Nothing else is taken for the end: no empty read, no fault, no sink that refuses.
-/

namespace Ipp.Channel

variable {input bytes passed : List UInt8} {script : List ReadEvent} {declared : Option Nat} {n : Nat}
  {earlier : List UInt8} {c d : Channel}

/-! ## Standing in the input -/

/-- Wherever a channel has got to, going back among it, it stands in its input. -/
theorem Loaded.standsIn (h : c.Loaded input script declared n earlier) : c.StandsIn input declared := by
  have hblock : c.block.length = c.behind.length + c.ahead.length := by
    rw [block, List.length_append, List.length_reverse]
  have htaken := h.taken
  have hcursor : c.cursor + c.buffered = c.source.taken := by
    rw [cursor, buffered]
    omega
  have hpassed : (earlier ++ c.behind.reverse).length = c.cursor := by
    rw [List.length_append, List.length_reverse, cursor, buffered]
    omega
  have hinput : input = (earlier ++ c.behind.reverse) ++ (c.ahead ++ c.source.rest) := by
    rw [h.input, block, List.append_assoc, List.append_assoc]
  have hnext : c.ahead ++ c.source.rest = input.drop c.cursor := by
    rw [← hpassed]
    conv => rhs; rw [hinput]
    rw [List.drop_left]
  refine ⟨hcursor, ?_, ?_, ?_, hnext, h.remaining, ?_, fun he => (h.ended he).1⟩
  · have hlength := congrArg List.length h.input
    simp only [List.length_append] at hlength
    omega
  · rw [List.extract_eq_take_drop, ← hnext, ← hcursor, Nat.add_sub_cancel_left, buffered, List.take_left]
  · rw [← hcursor, ← List.drop_drop, ← hnext, buffered, List.drop_left]
  · intro m hm
    have hremaining := h.remaining
    rw [hm] at hremaining
    obtain ⟨left, hleft, hsum⟩ := Option.map_eq_some_iff.mp hremaining
    rw [hleft, Option.getD_some]
    omega

theorem Refills.standsIn {sink : Sink} {bufferSize k : Nat}
    (h : (opened { rest := input, script } sink declared bufferSize).Refills k c) :
    c.StandsIn input declared := by
  obtain ⟨earlier, hloaded⟩ := h.loaded
  exact hloaded.standsIn

-- What is passed over lies between the two places.
theorem StandsIn.extract_eq (h : c.StandsIn input declared) (hpasses : c.Passes passed d)
    (h' : d.StandsIn input declared) : passed = input.extract c.cursor d.cursor := by
  have hpassed : d.cursor - c.cursor = passed.length := by
    have hc := h.cursor
    have hd := h'.cursor
    have htaken := hpasses.taken
    simp only [buffered] at hc hd
    omega
  rw [List.extract_eq_take_drop, hpassed, ← h.next, hpasses.input, List.take_left]

/-! ## To the end -/

theorem unbroken_refill {k : Nat} (hdeclared : c.remaining.isSome = true) (h : refill c = .ok k d) :
    c.source.Unbroken d.source := by
  cases hx : c.exhausted with
  | true =>
    rw [refill, if_pos hx] at h
    cases h
    exact .refl _
  | false =>
    obtain ⟨s, bytes, hread, rfl, hk⟩ := refill_loaded hx h
    refine Source.unbroken_of_read hread ?_
    rintro rfl
    rw [hdeclared] at hk
    cases hk

theorem unbroken_getBlock (hdeclared : c.remaining.isSome = true) (h : getBlock c = .ok bytes d) :
    c.source.Unbroken d.source := by
  rw [getBlock_eq] at h
  by_cases ha : c.ahead = []
  · rw [if_pos ha] at h
    cases hr : refill c with
    | ok k e =>
      rw [hr] at h
      cases h
      have hread : c.source.Unbroken e.source := unbroken_refill hdeclared hr
      exact hread
    | error fault e =>
      rw [hr] at h
      cases h
  · rw [if_neg ha] at h
    cases h
    exact .refl _

theorem Passes.isSome_remaining (h : c.Passes passed d) :
    d.remaining.isSome = c.remaining.isSome := by
  have hdeclared := congrArg Option.isSome h.declared
  rwa [Option.isSome_map, Option.isSome_map] at hdeclared

theorem unbroken_copyRestWithin {bound : Nat} {handed handed' : Array UInt8} {sink : Sink}
    (hdeclared : c.remaining.isSome = true)
    (h : (copyRestWithin bound handed sink c).outcome = .ok handed') :
    c.source.Unbroken (copyRestWithin bound handed sink c).channel.source := by
  induction bound generalizing handed sink c with
  | zero => exact .refl _
  | succ bound ih =>
    rw [copyRestWithin] at h ⊢
    cases hb : getBlock c with
    | error fault d =>
      rw [hb] at h
      cases h
    | ok block d =>
      have hstep := unbroken_getBlock hdeclared hb
      have hdeclared' : d.remaining.isSome = true := by
        rw [(passes_getBlock hb).1.isSome_remaining]
        exact hdeclared
      rw [hb] at h
      dsimp only at h ⊢
      split
      · exact hstep
      next hsome =>
      rw [if_neg hsome] at h
      cases ho : sink.offer block with
      | mk outcome sink' =>
        rw [ho] at h
        cases outcome with
        | error refusal => cases h
        | ok done => exact hstep.trans (ih hdeclared' h)

-- At the end there is nothing to hand over.
theorem AtEnd.copyRest (h : c.AtEnd) (sink : Sink) : copyRest sink c = ⟨.ok #[], sink, c⟩ := by
  have hskip : c.skipBlock = c := by
    rw [skipBlock, h.ahead]
    show ({ c with behind := c.behind, ahead := [] } : Channel) = c
    rw [← h.ahead]
  have hblock : getBlock c = .ok [] c := by
    rw [getBlock_eq, if_pos h.ahead, refill, if_pos h.exhausted]
    dsimp only
    rw [hskip, h.ahead]
  rw [Channel.copyRest, copyRestWithin, hblock]
  rfl

end Ipp.Channel
