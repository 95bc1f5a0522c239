import Ipp.Proofs.Channel.Alike
import Ipp.Proofs.Channel.Position

/-!
# Delivering the input in order

Calls on the read side may be mixed as one likes, and any of them may fail. What they deliver are the bytes
of the input from one cursor to the next (`readsInOrder_afterCalls`), so that none is delivered twice, none is
left out but those that a failing read has passed over, and none is taken from behind the declared length.
-/

namespace Ipp.Channel

open Calls

/-! ## Standing in the input -/

/-- The channel stands in the bytes of `input`, of which so many as declared belong to the request. -/
structure StandsIn (input : List UInt8) (declared : Option Nat) (c : Channel) : Prop where
  cursor : c.cursor + c.buffered = c.source.taken
  within : c.source.taken ≤ input.length
  ahead : c.ahead = input.extract c.cursor c.source.taken
  rest : c.source.rest = input.drop c.source.taken
  -- What is to be delivered comes behind the cursor.
  next : c.ahead ++ c.source.rest = input.drop c.cursor
  remaining : c.remaining.map (c.source.taken + ·) = declared
  leftover : ∀ n ∈ declared, c.buffered + c.remaining.getD 0 ≤ n
  ended : c.ended = true → declared = none

variable {input passed bytes : List UInt8} {script : List ReadEvent} {sink : Sink} {declared : Option Nat}
  {bufferSize : Nat} {c d : Channel}

-- The cursor is as far in the input as bytes were passed over.
theorem Passes.cursor_eq (h : (opened { rest := input, script } sink declared bufferSize).Passes passed c) :
    c.cursor = passed.length ∧ c.cursor + c.buffered = c.source.taken := by
  have htaken : 0 + passed.length + c.ahead.length = c.source.taken + 0 := h.taken
  simp only [cursor, buffered]
  omega

theorem Passes.standsIn (h : (opened { rest := input, script } sink declared bufferSize).Passes passed c) :
    c.StandsIn input declared := by
  obtain ⟨hcursor, htaken⟩ := h.cursor_eq
  have hinput : input = passed ++ (c.ahead ++ c.source.rest) := h.input
  have hdeclared : c.remaining.map (c.source.taken + ·) = declared := by
    rw [h.declared]
    show declared.map (0 + ·) = declared
    simp
  have hnext : c.ahead ++ c.source.rest = input.drop c.cursor := by
    rw [hcursor, hinput, List.drop_left]
  have hrest : c.source.rest = input.drop c.source.taken := by
    rw [← htaken, ← List.drop_drop, ← hnext, buffered, List.drop_left]
  refine ⟨htaken, ?_, ?_, hrest, hnext, hdeclared, ?_, ?_⟩
  · have := congrArg List.length hinput
    simp only [List.length_append, buffered] at this htaken
    omega
  · rw [List.extract_eq_take_drop, ← hnext, ← htaken, Nat.add_sub_cancel_left, buffered, List.take_left]
  · rintro n rfl
    cases hr : c.remaining with
    | none => simp [hr] at hdeclared
    | some left =>
      simp only [hr, Option.map_some, Option.some.injEq, Option.getD_some] at hdeclared ⊢
      omega
  · intro hended
    have hnone : c.remaining = none := h.ended (fun hopened => absurd hopened Bool.false_ne_true) hended
    rw [← hdeclared, hnone]
    rfl

-- The bytes passed over lie between the cursor before and the cursor after.
theorem Passes.extract_eq (h : (opened { rest := input, script } sink declared bufferSize).Passes passed c)
    (h' : c.Passes bytes d) : bytes = input.extract c.cursor d.cursor := by
  obtain ⟨hc, -⟩ := h.cursor_eq
  obtain ⟨hd, -⟩ := (h.trans h').cursor_eq
  have hinput : input = passed ++ (bytes ++ (d.ahead ++ d.source.rest)) := by
    rw [← h'.input]
    exact h.input
  rw [List.length_append] at hd
  rw [List.extract_eq_take_drop, hc, hd, Nat.add_sub_cancel_left, hinput, List.drop_left, List.take_left]

-- An input that held what was declared holds what is left of it.
theorem StandsIn.isShort_eq_false (h : c.StandsIn input declared)
    (hwhole : ∀ n ∈ declared, n ≤ input.length) : c.isShort = false := by
  have hremaining := h.remaining
  have hrest : c.source.rest.length = input.length - c.source.taken := by rw [h.rest, List.length_drop]
  rw [isShort]
  cases hr : c.remaining with
  | none => rfl
  | some left =>
    rw [hr] at hremaining
    have hdeclared : c.source.taken + left ≤ input.length := hwhole _ hremaining.symm
    exact decide_eq_false (by omega)

-- As many bytes are upcoming as the request has behind the cursor.
theorem StandsIn.length_upcoming (h : c.StandsIn input declared) (hwhole : ∀ n ∈ declared, n ≤ input.length) :
    c.cursor + c.upcoming.length = declared.getD input.length := by
  have hremaining := h.remaining
  have hcursor := h.cursor
  have hwithin := h.within
  have hrest : c.source.rest.length = input.length - c.source.taken := by rw [h.rest, List.length_drop]
  rw [buffered] at hcursor
  rw [upcoming, untaken, List.length_append]
  cases hr : c.remaining with
  | none =>
    rw [hr] at hremaining
    rw [← hremaining]
    show c.cursor + (c.ahead.length + c.source.rest.length) = input.length
    omega
  | some left =>
    rw [hr] at hremaining
    have hdeclared : c.source.taken + left ≤ input.length := hwhole _ hremaining.symm
    rw [← hremaining]
    show c.cursor + (c.ahead.length + (c.source.rest.take left).length) = c.source.taken + left
    rw [List.length_take]
    omega

/-! ## Faults of the input -/

/-- Where the fault is one of a stream, the script of the input holds it. -/
def Scripted (script : List ReadEvent) (fault : Fault) : Prop :=
  ∀ text, fault = .io text → .fault text ∈ script

/-- Over an input that has come so far in the script, a call that fails on a stream fails as the script
says. -/
abbrev BlamesInput (script : List ReadEvent) {α : Type} (x : Action α) : Prop :=
  Ends (fun c => c.source.script <:+ script) x (fun _ d => d.source.script <:+ script)
    fun fault _ => Scripted script fault

theorem blamesInput_refill : BlamesInput script refill := by
  intro c hc
  unfold refill
  by_cases hx : c.exhausted = true
  · rw [if_pos hx]
    exact hc
  rw [if_neg hx]
  cases hread : c.source.read c.want with
  | mk outcome s =>
    cases outcome with
    | error text =>
      rintro _ ⟨⟩
      exact hc.subset (Source.fault_mem_of_read hread)
    | ok bytes =>
      obtain ⟨hgave, -⟩ := Source.read_ok hread
      dsimp only
      by_cases hk : (bytes.isEmpty && c.remaining.isSome) = true
      · rw [if_pos hk]
        exact nofun
      · rw [if_neg hk]
        exact hgave.script.trans hc

theorem source_takeByte {b : UInt8} (h : c.takeByte = some (b, d)) : d.source = c.source := by
  unfold takeByte at h
  split at h
  · cases h
    rfl
  · cases h

theorem blamesInput_getByte : BlamesInput script getByte := by
  intro c hc
  unfold getByte
  cases ht : c.takeByte with
  | some taken =>
    show taken.2.source.script <:+ script
    rw [source_takeByte ht]
    exact hc
  | none =>
    cases hr : refill c with
    | error fault d => exact blamesInput_refill.error hc hr
    | ok n d =>
      have hd := blamesInput_refill.ok hc hr
      dsimp only
      cases ht' : d.takeByte with
      | none => exact nofun
      | some taken =>
        show taken.2.source.script <:+ script
        rw [source_takeByte ht']
        exact hd

theorem Shape.blamesInput_get (shape : Shape) : BlamesInput script shape.get := by
  have hbytes (n : Nat) (got : List UInt8) : BlamesInput script (getBytesOnto n got) := by
    induction n generalizing got with
    | zero => exact ends_pure fun _ hc => hc
    | succ n ih => exact blamesInput_getByte.bind fun b => ih (b :: got)
  rw [shape.get_eq]
  exact (hbytes shape.width []).bind fun _ => ends_pure fun _ hc => hc

theorem blamesInput_getBlock : BlamesInput script getBlock := by
  intro c hc
  rw [getBlock_eq]
  by_cases ha : c.ahead = []
  · rw [if_pos ha]
    cases hr : refill c with
    | ok n d =>
      have hd := blamesInput_refill.ok hc hr
      exact hd
    | error fault d => exact blamesInput_refill.error hc hr
  · rw [if_neg ha]
    exact hc

-- A steady sink has no part in it.
theorem scripted_copyRestWithin {bound : Nat} {handed : Array UInt8} {target : Sink} (htarget : target.Steady)
    (hc : c.source.script <:+ script) {fault : Fault}
    (h : (copyRestWithin bound handed target c).outcome = .error fault) : Scripted script fault := by
  induction bound generalizing handed target c with
  | zero => cases h
  | succ bound ih =>
    rw [copyRestWithin] at h
    cases hb : getBlock c with
    | error fault' d =>
      rw [hb] at h
      cases h
      exact blamesInput_getBlock.error hc hb
    | ok block d =>
      rw [hb] at h
      dsimp only at h
      split at h
      · cases h
      · obtain ⟨target', hoffer, -, htarget'⟩ := htarget.offer block
        rw [hoffer] at h
        exact ih htarget' (blamesInput_getBlock.ok hc hb) h

theorem blamesInput_drainWithin (bound : Nat) : BlamesInput script (drainWithin bound) := by
  induction bound with
  | zero => exact ends_pure fun _ hc => hc
  | succ bound ih =>
    have hskip : BlamesInput script (modify skipBlock : Action PUnit) := fun _ hc => hc
    exact ends_get_bind fun c _ => ends_ite (ends_pure fun _ hc => hc)
      (blamesInput_refill.bind fun _ => hskip.bind fun _ => ih)

-- A steady output has no part in it either.
theorem scripted_finish (hsink : c.sink.Steady) {fault : Fault} (h : Channel.finish c = .error fault d) :
    Scripted c.source.script fault := by
  rw [Channel.finish] at h
  have hguards : checkGuards c = .ok () c ∨ ∃ buffer, checkGuards c = .error (.bufferOverrun buffer) c := by
    unfold checkGuards
    split
    · exact .inr ⟨_, rfl⟩
    · split
      · exact .inr ⟨_, rfl⟩
      · exact .inl rfl
  rcases hguards with hok | ⟨buffer, hover⟩
  · rw [bind_of_ok hok] at h
    have h' : (do drainWithin (c.source.rest.length + 1); flush) c.reportClosing.skipBlock =
        .error fault d := h
    cases hdrain : drainWithin (c.source.rest.length + 1) c.reportClosing.skipBlock with
    | error fault' e =>
      rw [bind_of_error hdrain] at h'
      cases h'
      have hsame : c.reportClosing.skipBlock.source.script <:+ c.source.script := List.suffix_refl _
      exact (blamesInput_drainWithin _).error hsame hdrain
    | ok a e =>
      rw [bind_of_ok hdrain] at h'
      have hreads : c.reportClosing.skipBlock.Reads e := (keeps_drainWithin _).ok hdrain
      have hsame : e.sink = c.sink := hreads.sink
      obtain ⟨e', hflush⟩ := flush_of_steady (hsame ▸ hsink)
      rw [hflush] at h'
      cases h'
  · rw [bind_of_error hover] at h
    cases h
    intro text htext
    cases htext

/-! ## Calls on the read side -/

inductive ReadCall where
  | get (shape : Shape)
  | block
  -- Hands the rest of the request to this sink.
  | rest (sink : Sink)
  | finish

/-- The channel after a call, whether it failed or not. -/
def ReadCall.after : ReadCall → Channel → Channel
  | get shape, c => final (shape.get c)
  | block, c => final (getBlock c)
  | rest sink, c => (copyRest sink c).channel
  | finish, c => final (Channel.finish c)

/-- The fault of a call that fails. -/
def ReadCall.fault? : ReadCall → Channel → Option Fault
  | get shape, c => Calls.fault? (shape.get c)
  | block, c => Calls.fault? (getBlock c)
  | rest sink, c =>
    match (copyRest sink c).outcome with
    | .ok _ => none
    | .error fault => some fault
  | finish, c => Calls.fault? (Channel.finish c)

/-- The output that the call sends to does not fail. -/
def ReadCall.OutputSteady : ReadCall → Channel → Prop
  | get _, _ | block, _ => True
  | rest sink, _ => sink.Steady
  | finish, c => c.sink.Steady

/-- The call asks for no more than the request holds, and its output takes what it sends. -/
def ReadCall.IsMet (input : List UInt8) (declared : Option Nat) : ReadCall → Channel → Prop
  | get shape, c => c.cursor + shape.width ≤ declared.getD input.length
  | block, _ => True
  | rest sink, _ => sink.Steady
  | finish, c => c.Fit

theorem ReadCall.scripted (call : ReadCall) (houtput : call.OutputSteady c) {fault : Fault}
    (h : call.fault? c = some fault) : Scripted c.source.script fault := by
  cases call with
  | get shape => exact shape.blamesInput_get.error (List.suffix_refl _) (eq_error_of_fault? h)
  | block => exact blamesInput_getBlock.error (List.suffix_refl _) (eq_error_of_fault? h)
  | rest sink =>
    rw [ReadCall.fault?] at h
    cases hcopied : (copyRest sink c).outcome with
    | ok handed =>
      rw [hcopied] at h
      cases h
    | error fault' =>
      rw [hcopied] at h
      cases h
      exact scripted_copyRestWithin houtput (List.suffix_refl _) hcopied
  | finish => exact scripted_finish houtput (eq_error_of_fault? h)

-- Where nothing fails, what is asked for is given.
theorem ReadCall.fault?_of_isMet (h : c.StandsIn input declared) (hsteady : c.Steady)
    (hwhole : ∀ n ∈ declared, n ≤ input.length) {call : ReadCall} (hmet : call.IsMet input declared c) :
    call.fault? c = none := by
  have hshort := h.isShort_eq_false hwhole
  cases call with
  | get shape =>
    have hlength := h.length_upcoming hwhole
    have hmet' : c.cursor + shape.width ≤ declared.getD input.length := hmet
    have hwidth : (c.upcoming.take shape.width).length = shape.width := by
      rw [List.length_take]
      omega
    obtain ⟨d, hbytes, -⟩ := hsteady.getBytes_append (List.take_append_drop shape.width c.upcoming).symm
    rw [hwidth] at hbytes
    rw [ReadCall.fault?, shape.get_eq, bind_of_ok hbytes]
    rfl
  | block =>
    obtain ⟨block, d, hblock, -⟩ := hsteady.getBlock hshort
    rw [ReadCall.fault?, hblock]
    rfl
  | rest sink =>
    have hmet' : sink.Steady := hmet
    rw [ReadCall.fault?, (hsteady.copyRest hshort hmet').outcome]
  | finish =>
    have hmet' : c.Fit := hmet
    obtain ⟨d, hfinish, -⟩ := hmet'.finish
    rw [ReadCall.fault?, hfinish]
    rfl

theorem ReadCall.advances (call : ReadCall) (c : Channel) : c.Advances (call.after c) := by
  cases call with
  | get shape => exact shape.advances_get c
  | block =>
    show c.Advances (final (getBlock c))
    cases hb : getBlock c with
    | ok block d => exact (passes_getBlock hb).1.advances
    | error fault d => exact (getBlock_fails hb).1.advances
  | rest sink =>
    obtain ⟨passed, hpasses, -⟩ := hands_copyRest sink c
    exact hpasses.advances
  | finish => exact advances_finish c

/-- The channel after one call behind the other. -/
def afterCalls (calls : List ReadCall) (c : Channel) : Channel :=
  calls.foldl (fun c call => call.after c) c

theorem advances_afterCalls (calls : List ReadCall) (c : Channel) : c.Advances (afterCalls calls c) := by
  induction calls generalizing c with
  | nil => exact .refl c
  | cons call calls ih => exact (call.advances c).trans (ih (call.after c))

/-- Wherever the channel stands in its input, the next call delivers what comes from there to where it stands
then. -/
structure ReadsInOrder (input : List UInt8) (declared : Option Nat) (c : Channel) : Prop where
  stands : c.StandsIn input declared
  -- Also where the call has failed.
  forward : ∀ call : ReadCall, c.cursor ≤ (call.after c).cursor ∧ (call.after c).StandsIn input declared
  get : ∀ (shape : Shape) (p : Primitive) (d : Channel), shape.get c = .ok p d →
    p.shape = shape ∧ p.wire = input.extract c.cursor d.cursor
  block : ∀ (bytes : List UInt8) (d : Channel), getBlock c = .ok bytes d →
    bytes = input.extract c.cursor d.cursor ∧ (bytes = [] → d.AtEnd)
  rest : ∀ (sink : Sink) (handed : Array UInt8), (copyRest sink c).outcome = .ok handed →
    handed.toList = input.extract c.cursor (copyRest sink c).channel.cursor ∧
      (copyRest sink c).sink.bytes = sink.bytes ++ handed.toList ∧ (copyRest sink c).channel.AtEnd
  -- A sink that refuses has a first part of what was passed over.
  restFails : ∀ (sink : Sink) (fault : Fault), (copyRest sink c).outcome = .error fault →
    ∃ k, (copyRest sink c).sink.bytes =
      sink.bytes ++ (input.extract c.cursor (copyRest sink c).channel.cursor).take k
  finish : ∀ (d : Channel), Channel.finish c = .ok () d → d.AtEnd
  dataRunoff : ∀ (shape : Shape) (d : Channel), shape.get c = .error .dataRunoff d →
    d.cursor = d.source.taken ∧ (declared = some d.source.taken ∨ declared = none ∧ d.ended = true)
  prematureEof : ∀ (shape : Shape) (d : Channel), shape.get c = .error .prematureEof d →
    ∃ n, declared = some n ∧ d.source.taken < n
  -- Over an input that does not fail and holds all of the request, a call gives what it asks for.
  met : c.Steady → (∀ n ∈ declared, n ≤ input.length) → ∀ call : ReadCall, call.IsMet input declared c →
    call.fault? c = none
  -- Where no output fails, a fault of a stream is one that the script of the input holds.
  io : ∀ (call : ReadCall) (text : String), call.OutputSteady c → call.fault? c = some (.io text) →
    .fault text ∈ c.source.script

-- At the end everything is delivered, and no more was declared.
theorem StandsIn.atEnd (h : c.StandsIn input declared) (hend : c.AtEnd) :
    c.cursor = c.source.taken ∧
      (declared = some c.source.taken ∨ declared = none ∧ c.ended = true) := by
  constructor
  · have hcursor := h.cursor
    rw [buffered, hend.ahead] at hcursor
    exact hcursor
  · have hx := hend.exhausted
    rw [exhausted, Bool.or_eq_true, beq_iff_eq] at hx
    rcases hx with hended | hzero
    · exact .inr ⟨h.ended hended, hended⟩
    · have hremaining := h.remaining
      rw [hzero] at hremaining
      exact .inl hremaining.symm

theorem StandsIn.lt_declared (h : c.StandsIn input declared) {n : Nat} (hr : c.remaining = some n)
    (hn : 0 < n) : ∃ n, declared = some n ∧ c.source.taken < n := by
  have hremaining := h.remaining
  rw [hr] at hremaining
  exact ⟨c.source.taken + n, hremaining.symm, Nat.lt_add_of_pos_right hn⟩

/-- Whatever was called before, the channel reads on in order: for every input, declared length, buffer and
behaviour of the streams. -/
theorem readsInOrder_afterCalls (input : List UInt8) (script : List ReadEvent) (sink : Sink)
    (declared : Option Nat) (bufferSize : Nat) (calls : List ReadCall) :
    ReadsInOrder input declared
      (afterCalls calls (opened { rest := input, script } sink declared bufferSize)) := by
  obtain ⟨passed, hpassed⟩ :=
    advances_afterCalls calls (opened { rest := input, script } sink declared bufferSize)
  generalize afterCalls calls (opened { rest := input, script } sink declared bufferSize) = c at hpassed
  have hstands {passed' : List UInt8} {d : Channel} (h : c.Passes passed' d) : d.StandsIn input declared :=
    (hpassed.trans h).standsIn
  constructor
  · exact hpassed.standsIn
  · intro call
    obtain ⟨passed', h⟩ := call.advances c
    obtain ⟨hc, -⟩ := hpassed.cursor_eq
    obtain ⟨hd, -⟩ := (hpassed.trans h).cursor_eq
    rw [List.length_append] at hd
    exact ⟨by omega, hstands h⟩
  · intro shape p d h
    obtain ⟨hshape, hpasses⟩ := Shape.get_passes h
    exact ⟨hshape, hpassed.extract_eq hpasses⟩
  · intro bytes d h
    obtain ⟨hpasses, hend⟩ := passes_getBlock h
    exact ⟨hpassed.extract_eq hpasses, hend⟩
  · intro sink handed h
    obtain ⟨passed', hpasses, hcopied⟩ := hands_copyRest sink c
    rw [h] at hcopied
    obtain ⟨hhanded, hsent, hend⟩ := hcopied
    have hlist : handed.toList = passed' := by
      rw [hhanded]
      simp
    exact ⟨hlist.trans (hpassed.extract_eq hpasses), by rw [hsent, hlist], hend⟩
  · intro sink fault h
    obtain ⟨passed', hpasses, hcopied⟩ := hands_copyRest sink c
    rw [h] at hcopied
    obtain ⟨-, k, hk⟩ := hcopied
    exact ⟨k, by rw [hk, hpassed.extract_eq hpasses]⟩
  · intro d h
    exact starves_finish.ok trivial h
  · intro shape d h
    obtain ⟨passed', hpasses⟩ := shape.advances_get.error h
    exact (hstands hpasses).atEnd ((shape.starves_get.error trivial h).dataRunoff rfl)
  · intro shape d h
    obtain ⟨passed', hpasses⟩ := shape.advances_get.error h
    obtain ⟨n, hr, hn⟩ := (shape.starves_get.error trivial h).prematureEof rfl
    exact (hstands hpasses).lt_declared hr hn
  · intro hsteady hwhole call hmet
    exact ReadCall.fault?_of_isMet hpassed.standsIn hsteady hwhole hmet
  · intro call text houtput h
    exact call.scripted houtput h text rfl

end Ipp.Channel
