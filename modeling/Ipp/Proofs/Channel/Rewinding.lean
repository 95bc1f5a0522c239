import Ipp.Proofs.Channel.Order
import Ipp.Proofs.Channel.Steps

/-!
# Going back to the first byte

A channel counts the blocks that it has read. While there was no more than one, that block begins with the
first byte of the request, whatever was delivered or dropped of it, how often the input failed in between,
and how often the channel went back before. So the channel goes back exactly to the first byte, or refuses
and stays where it is (`Refills.rewindsExactly`).
-/

namespace Ipp.Channel

open Calls

/-! ## Blocks -/

/-- All bytes of the block that was read last. -/
def block (c : Channel) : List UInt8 :=
  c.behind.reverse ++ c.ahead

/-- From `c` to `d` nothing was taken from the input. -/
structure SameBlock (c d : Channel) : Prop where
  block : d.block = c.block
  rest : d.source.rest = c.source.rest
  taken : d.source.taken = c.source.taken
  script : d.source.script <:+ c.source.script
  remaining : d.remaining = c.remaining
  ended : d.ended = c.ended
  loads : d.loads = c.loads

variable {c d e : Channel} {n m : Nat}

theorem SameBlock.of_block {behind ahead : List UInt8}
    (h : behind.reverse ++ ahead = c.behind.reverse ++ c.ahead) : c.SameBlock { c with behind, ahead } :=
  ⟨h, rfl, rfl, List.suffix_refl _, rfl, rfl, rfl⟩

-- A read that fails uses up a part of the script.
theorem SameBlock.of_gave {s : Source} (h : c.source.Gave [] s) : c.SameBlock { c with source := s } :=
  ⟨rfl, h.rest.symm, h.taken, h.script, rfl, rfl, rfl⟩

-- Where more can be read, a block is what one call on the input has given.
theorem refill_loaded (hx : d.exhausted = false) {k : Nat} (h : refill d = .ok k e) :
    ∃ s bytes, d.source.read d.want = (.ok bytes, s) ∧ e = d.loaded s bytes ∧
      (bytes.isEmpty && d.remaining.isSome) = false := by
  unfold refill at h
  rw [if_neg (by rw [hx]; decide)] at h
  cases hread : d.source.read d.want with
  | mk outcome s =>
    rw [hread] at h
    cases outcome with
    | error text => cases h
    | ok bytes =>
      dsimp only at h
      split at h
      · cases h
      · next hk =>
        cases h
        exact ⟨s, bytes, rfl, rfl, eq_false_of_ne_true hk⟩

/-- From `c` to the channel behind `n` blocks were read, the empty one at the end of the input counting as
any other. In between nothing was taken from the input. -/
inductive Refills (c : Channel) : Nat → Channel → Prop
  | start : c.Refills 0 c
  | within {n : Nat} {d e : Channel} (before : c.Refills n d) (same : d.SameBlock e) : c.Refills n e
  | refill {n k : Nat} {d e : Channel} (before : c.Refills n d) (more : d.exhausted = false)
      (read : refill d = .ok k e) : c.Refills (n + 1) e

theorem Refills.trans (h : c.Refills n d) (h' : d.Refills m e) : c.Refills (n + m) e := by
  induction h' with
  | start => exact h
  | within _ same ih => exact ih.within same
  | refill _ more read ih => exact ih.refill more read

-- The counter of the channel is right.
theorem Refills.loads_eq (h : c.Refills n d) : d.loads = c.loads + n := by
  induction h with
  | start => rfl
  | within _ same ih => rw [same.loads, ih]
  | refill _ more read ih =>
    obtain ⟨s, bytes, -, rfl, -⟩ := refill_loaded more read
    exact congrArg (· + 1) ih

-- While no other block is read the block stays.
theorem Refills.block_eq (h : c.Refills 0 d) : d.block = c.block := by
  generalize hn : 0 = n at h
  induction h with
  | start => rfl
  | within _ same ih => exact same.block.trans (ih hn)
  | refill _ _ _ _ => cases hn

/-- Any number of blocks was read. -/
def Proceeds (c d : Channel) : Prop :=
  ∃ n, c.Refills n d

theorem SameBlock.proceeds (h : c.SameBlock d) : c.Proceeds d :=
  ⟨0, .within .start h⟩

/-- Every call on a channel reads blocks or leaves the block. -/
theorem kept_proceeds : Kept Proceeds where
  refl c := ⟨0, .start⟩
  trans := by
    rintro c d e ⟨n, h⟩ ⟨m, h'⟩
    exact ⟨n + m, h.trans h'⟩
  refill c := by
    cases hx : c.exhausted with
    | true =>
      rw [Channel.refill, if_pos hx]
      exact ⟨0, .start⟩
    | false =>
      rcases c.refill_cases with ⟨hx', -⟩ | ⟨fault, s, h, hg, -⟩ | ⟨s, bytes, h, -⟩
      · rw [hx] at hx'
        cases hx'
      · rw [h]
        exact (SameBlock.of_gave hg).proceeds
      · rw [h]
        exact ⟨1, Refills.start.refill hx h⟩
  block _ _ _ h := (SameBlock.of_block h).proceeds
  output _ _ _ _ _ := SameBlock.proceeds ⟨rfl, rfl, rfl, List.suffix_refl _, rfl, rfl, rfl⟩

/-! ## What the block holds -/

variable {input : List UInt8} {script : List ReadEvent} {sink : Sink} {declared : Option Nat}
  {bufferSize : Nat}

/-- `n` blocks of the request in `input` were read: first those with the bytes in `earlier`, then the one that
the channel holds. -/
structure Loaded (input : List UInt8) (script : List ReadEvent) (declared : Option Nat) (n : Nat)
    (earlier : List UInt8) (c : Channel) : Prop where
  input : input = earlier ++ (c.block ++ c.source.rest)
  taken : c.source.taken = earlier.length + c.block.length
  -- The first block is gone when another one was read, and never without.
  first : earlier = [] ↔ n ≤ 1
  untouched : n = 0 → c.source.taken = 0
  touched : 0 < n → c.ended = false → 0 < c.source.taken
  remaining : c.remaining.map (c.source.taken + ·) = declared
  ended : c.ended = true → declared = none ∧ (.upTo 0 ∈ script ∨ c.source.rest = [])
  script : c.source.script <:+ script

variable {earlier : List UInt8}

theorem loaded_opened : (opened { rest := input, script } sink declared bufferSize).Loaded input script
    declared 0 [] where
  input := rfl
  taken := rfl
  first := ⟨fun _ => Nat.zero_le 1, fun _ => rfl⟩
  untouched _ := rfl
  touched h := absurd h (Nat.lt_irrefl 0)
  remaining := by
    show declared.map (0 + ·) = declared
    simp
  ended h := nomatch h
  script := List.suffix_refl _

theorem Loaded.within (h : c.Loaded input script declared n earlier) (hs : c.SameBlock d) :
    d.Loaded input script declared n earlier where
  input := by
    rw [hs.block, hs.rest]
    exact h.input
  taken := by
    rw [hs.taken, hs.block]
    exact h.taken
  first := h.first
  untouched hn := hs.taken.trans (h.untouched hn)
  touched hn he := by
    rw [hs.taken]
    exact h.touched hn (hs.ended.symm.trans he)
  remaining := by
    rw [hs.remaining, hs.taken]
    exact h.remaining
  ended he := by
    rw [hs.rest]
    exact h.ended (hs.ended.symm.trans he)
  script := hs.script.trans h.script

-- The block that was held joins the earlier ones. It is empty only where none was read before.
theorem Loaded.refill (h : c.Loaded input script declared n earlier) (hx : c.exhausted = false)
    {s : Source} {bytes : List UInt8} (hread : c.source.read c.want = (.ok bytes, s))
    (hk : (bytes.isEmpty && c.remaining.isSome) = false) :
    (c.loaded s bytes).Loaded input script declared (n + 1) (earlier ++ c.block) := by
  obtain ⟨hg, hl⟩ := Source.read_ok hread
  have hended : c.ended = false := by
    rw [exhausted, Bool.or_eq_false_iff] at hx
    exact hx.1
  have htaken : s.taken = c.source.taken + bytes.length := hg.taken
  have hpasses := passes_loaded hg hl hk
  have hremaining : (c.loaded s bytes).remaining.map (s.taken + ·) = declared :=
    hpasses.declared.trans h.remaining
  have hlength : (earlier ++ c.block).length = c.source.taken := by
    rw [List.length_append, h.taken]
  refine ⟨?_, ?_, ?_, fun hn => absurd hn (Nat.succ_ne_zero n), fun _ he => ?_, hremaining, fun he => ?_,
    hg.script.trans h.script⟩
  · show input = earlier ++ c.block ++ (bytes ++ s.rest)
    rw [List.append_assoc, ← hg.rest]
    exact h.input
  · show s.taken = (earlier ++ c.block).length + bytes.length
    rw [hlength, htaken]
  · rw [← List.length_eq_zero_iff, hlength]
    constructor
    · intro hzero
      have hnone : ¬0 < n := fun hn => Nat.ne_of_gt (h.touched hn hended) hzero
      omega
    · exact fun hn => h.untouched (by omega)
  · have hb : bytes.isEmpty = false := he
    have hpos : 0 < bytes.length := List.length_pos_iff.mpr (by rintro rfl; cases hb)
    show 0 < s.taken
    omega
  · have hb : bytes = [] := List.isEmpty_iff.mp he
    subst hb
    have hnone : c.remaining = none := by simpa using hk
    have hrest : c.source.rest = s.rest := hg.rest
    constructor
    · have hdeclared := h.remaining
      rw [hnone] at hdeclared
      exact hdeclared.symm
    · show .upTo 0 ∈ script ∨ s.rest = []
      rw [← hrest]
      exact (Source.read_nil (want_pos hx) hread).imp_left fun hmem => h.script.subset hmem

/-- What was read from a fresh channel is what it holds and the blocks before. -/
theorem Refills.loaded (h : (opened { rest := input, script } sink declared bufferSize).Refills n c) :
    ∃ earlier, c.Loaded input script declared n earlier := by
  induction h with
  | start => exact ⟨[], loaded_opened⟩
  | within _ same ih =>
    obtain ⟨earlier, hloaded⟩ := ih
    exact ⟨earlier, hloaded.within same⟩
  | refill _ more read ih =>
    obtain ⟨earlier, hloaded⟩ := ih
    obtain ⟨s, bytes, hread, rfl, hk⟩ := refill_loaded more read
    exact ⟨_, hloaded.refill more hread hk⟩

-- The first bytes are still held if and only if no second block was read.
theorem Loaded.length_block_iff (h : c.Loaded input script declared n earlier) :
    c.block.length = c.source.taken ↔ n ≤ 1 := by
  rw [← h.first, ← List.length_eq_zero_iff, h.taken]
  omega

/-! ## Rewinding -/

/-- The channel with nothing of its block delivered. -/
def rewound (c : Channel) : Channel :=
  { c with behind := [], ahead := c.block }

theorem rewind_eq (c : Channel) :
    rewind c = if c.loads ≤ 1 then .ok () c.rewound else .error .cannotRewind c := by
  unfold rewind
  by_cases h : c.loads > 1
  · rw [if_pos h, if_neg (by omega)]
  · rw [if_neg h, if_pos (by omega)]
    rfl

-- It is as if the first block had only just been read.
theorem Loaded.passes_rewound (h : c.Loaded input script declared n earlier) (hn : n ≤ 1) :
    (opened { rest := input, script } sink declared bufferSize).Passes [] c.rewound := by
  have hearlier := h.first.mpr hn
  subst hearlier
  refine ⟨h.input, ?_, ?_, fun _ he => ?_⟩
  · have htaken := h.taken
    rw [List.length_nil, Nat.zero_add] at htaken
    show 0 + 0 + c.block.length = c.source.taken + 0
    omega
  · refine h.remaining.trans ?_
    show declared = declared.map (0 + ·)
    simp
  · obtain ⟨hdeclared, -⟩ := h.ended he
    have hremaining := h.remaining
    rw [hdeclared] at hremaining
    exact Option.map_eq_none_iff.mp hremaining

/-- The bytes are the whole request: all that was declared, or all up to where the input has ended, on a
channel that has delivered them. -/
structure IsWhole (input : List UInt8) (script : List ReadEvent) (declared : Option Nat)
    (bytes : List UInt8) (c : Channel) : Prop where
  fromFirst : bytes = input.take bytes.length
  length : ∀ n ∈ declared, bytes.length = n
  ended : declared = none → c.ended = true
  -- An input that gives something as long as it can has ended when it has given everything.
  everything : declared = none → .upTo 0 ∉ script → bytes = input

-- What a channel that comes to its end has passed over since the beginning is the whole request.
theorem Passes.isWhole {bytes : List UInt8}
    (h : (opened { rest := input, script } sink declared bufferSize).Passes bytes c)
    (hloaded : c.Loaded input script declared n earlier) (hend : c.AtEnd) :
    IsWhole input script declared bytes c := by
  obtain ⟨hcursor, -⟩ := h.cursor_eq
  obtain ⟨hatTaken, hdeclared⟩ := h.standsIn.atEnd hend
  have hinput : input = bytes ++ (c.ahead ++ c.source.rest) := h.input
  refine ⟨?_, ?_, fun hnone => ?_, fun hnone hscript => ?_⟩
  · rw [hinput, List.take_left]
  · rintro n rfl
    rcases hdeclared with heq | ⟨hnone, -⟩
    · cases heq
      omega
    · cases hnone
  · rcases hdeclared with heq | ⟨-, hended⟩
    · rw [hnone] at heq
      cases heq
    · exact hended
  · rcases hdeclared with heq | ⟨-, hended⟩
    · rw [hnone] at heq
      cases heq
    · have hrest : c.source.rest = [] := (hloaded.ended hended).2.resolve_left hscript
      rw [hend.ahead, hrest, List.nil_append, List.append_nil] at hinput
      exact hinput.symm

/-- What the channel delivers next starts with the first byte of the request. -/
structure StartsOver (input : List UInt8) (script : List ReadEvent) (declared : Option Nat)
    (c : Channel) : Prop where
  behind : c.behind = []
  ahead : c.ahead = input.take c.source.taken
  cursor : c.cursor = 0
  stands : c.StandsIn input declared
  get : ∀ (shape : Shape) (p : Primitive) (d : Channel), shape.get c = .ok p d →
    p.wire = input.take d.cursor
  block : ∀ (bytes : List UInt8) (d : Channel), getBlock c = .ok bytes d → bytes = input.take d.cursor
  rest : ∀ (sink : Sink) (handed : Array UInt8), (copyRest sink c).outcome = .ok handed →
    IsWhole input script declared handed.toList (copyRest sink c).channel ∧
      (copyRest sink c).sink.bytes = sink.bytes ++ handed.toList
  restFails : ∀ (sink : Sink) (fault : Fault), (copyRest sink c).outcome = .error fault →
    ∃ k, (copyRest sink c).sink.bytes = sink.bytes ++ input.take k

theorem Refills.startsOver
    (h : (opened { rest := input, script } sink declared bufferSize).Refills n c) (hn : n ≤ 1) :
    c.rewound.StartsOver input script declared := by
  obtain ⟨earlier, hloaded⟩ := h.loaded
  have hpassed : (opened { rest := input, script } sink declared bufferSize).Passes [] c.rewound :=
    hloaded.passes_rewound hn
  obtain ⟨hcursor, hbuffered⟩ := hpassed.cursor_eq
  have hstands := hpassed.standsIn
  have hfirst {bytes : List UInt8} {d : Channel} (hd : c.rewound.Passes bytes d) :
      bytes = input.take d.cursor := by
    have heq := hpassed.extract_eq hd
    rwa [hcursor, List.length_nil, List.extract_eq_take_drop, List.drop_zero, Nat.sub_zero] at heq
  refine ⟨rfl, ?_, hcursor, hstands, ?_, ?_, ?_, ?_⟩
  · have hahead := hstands.ahead
    rwa [hcursor, List.length_nil, List.extract_eq_take_drop, List.drop_zero, Nat.sub_zero] at hahead
  · exact fun shape p d hget => hfirst (Shape.get_passes hget).2
  · exact fun bytes d hblock => hfirst (passes_getBlock hblock).1
  · intro sink' handed hok
    obtain ⟨passed, hpasses, hcopied⟩ := hands_copyRest sink' c.rewound
    rw [hok] at hcopied
    obtain ⟨rfl, hsent, hend⟩ := hcopied
    have hrewound : c.SameBlock c.rewound := .of_block rfl
    obtain ⟨m, hrefills⟩ := kept_proceeds.copyRest sink' c.rewound
    obtain ⟨earlier', hloaded'⟩ := ((h.within hrewound).trans hrefills).loaded
    have hlist : ((#[] : Array UInt8) ++ passed).toList = passed := by simp
    rw [hlist]
    exact ⟨(hpassed.trans hpasses).isWhole hloaded' hend, hsent⟩
  · intro sink' fault herror
    obtain ⟨passed, hpasses, hcopied⟩ := hands_copyRest sink' c.rewound
    rw [herror] at hcopied
    obtain ⟨-, k, hk⟩ := hcopied
    refine ⟨min k (copyRest sink' c.rewound).channel.cursor, ?_⟩
    rw [hk, hfirst hpasses, List.take_take]

/-- Rewinding a channel on which `n` blocks were read is exact, or refused. -/
structure RewindsExactly (input : List UInt8) (script : List ReadEvent) (declared : Option Nat) (n : Nat)
    (c : Channel) : Prop where
  counted : c.loads = n
  succeeds : (∃ d, rewind c = .ok () d) ↔ n ≤ 1
  -- All that was taken from the input is still held.
  holds : n ≤ 1 ↔ c.block = input.take c.source.taken
  -- Apart from where it stands in its block the channel stays as it is.
  exact : ∀ d, rewind c = .ok () d → d = { c with behind := [], ahead := input.take c.source.taken } ∧
    d.StartsOver input script declared
  refused : 1 < n → rewind c = .error .cannotRewind c

theorem Loaded.block_eq_take_iff (h : c.Loaded input script declared n earlier) :
    c.block = input.take c.source.taken ↔ n ≤ 1 := by
  have hlength := congrArg List.length h.input
  have htaken := h.taken
  simp only [List.length_append] at hlength
  constructor
  · intro hblock
    have := congrArg List.length hblock
    rw [List.length_take] at this
    exact h.length_block_iff.mp (by omega)
  · intro hn
    have hinput := h.input
    rw [h.first.mpr hn, List.nil_append] at hinput
    rw [hinput, ← h.length_block_iff.mpr hn, List.take_left]

theorem Refills.rewindsExactly
    (h : (opened { rest := input, script } sink declared bufferSize).Refills n c) :
    c.RewindsExactly input script declared n := by
  obtain ⟨earlier, hloaded⟩ := h.loaded
  have hloads : c.loads = n := h.loads_eq.trans (Nat.zero_add n)
  have hheld := hloaded.block_eq_take_iff
  refine ⟨hloads, ⟨?_, fun hn => ⟨c.rewound, ?_⟩⟩, hheld.symm, fun d hd => ?_, fun hn => ?_⟩
  · rintro ⟨d, hd⟩
    rw [rewind_eq, hloads] at hd
    split at hd
    · assumption
    · cases hd
  · rw [rewind_eq, hloads, if_pos hn]
  · rw [rewind_eq, hloads] at hd
    split at hd
    · next hn =>
      cases hd
      refine ⟨?_, h.startsOver hn⟩
      rw [rewound, hheld.mpr hn]
    · cases hd
  · rw [rewind_eq, hloads, if_neg (by omega)]

/-! ## Sequences of calls -/

/-- What can be asked of the read side, blocks and going back among it. -/
inductive ReadStep where
  | call (asked : ReadCall)
  | refill
  | rewind

/-- The channel after a step, whether it failed or not. -/
def ReadStep.after : ReadStep → Channel → Channel
  | call asked, c => asked.after c
  | refill, c => final (Channel.refill c)
  | rewind, c => final (Channel.rewind c)

theorem ReadStep.proceeds (step : ReadStep) (c : Channel) : c.Proceeds (step.after c) := by
  cases step with
  | call asked =>
    cases asked with
    | get shape => exact kept_proceeds.get shape c
    | block => exact kept_proceeds.getBlock c
    | rest sink => exact kept_proceeds.copyRest sink c
    | finish => exact kept_proceeds.finish c
  | refill => exact kept_proceeds.refill c
  | rewind => exact kept_proceeds.rewind c

/-- The channel after one step behind the other. -/
def afterSteps (steps : List ReadStep) (c : Channel) : Channel :=
  steps.foldl (fun c step => step.after c) c

theorem proceeds_afterSteps (steps : List ReadStep) (c : Channel) : c.Proceeds (afterSteps steps c) := by
  induction steps generalizing c with
  | nil => exact kept_proceeds.refl c
  | cons step steps ih => exact kept_proceeds.trans (step.proceeds c) (ih (step.after c))

end Ipp.Channel
