import Ipp.Proofs.Channel.Breaking
import Ipp.Proofs.Channel.Primitives

/-!
# What a channel emits

Bytes are put one by one, in primitives and texts, and whole streams are sent past the buffer. As long as
the output has not refused anything, what it has accepted and what is pending are the bytes of these calls in
their order (`accounted_afterWrites`), wherever the buffer was sent. Of a stream these are all that it gives
before it fails or ends (`Source.content`); a file is a stream that does not fail (`copyFile_eq`).
-/

namespace Ipp

/-! ## What a source gives -/

/-- What calls give that ask for at most `want` bytes each, up to the first that fails or gives nothing. -/
def Source.contentBy (want : Nat) : List ReadEvent → List UInt8 → List UInt8
  | [], rest => rest
  | .interrupted :: script, rest => contentBy want script rest
  | .fault _ :: _, _ => []
  | .upTo n :: script, rest =>
    let block := rest.take (min n want)
    if block.isEmpty then [] else block ++ contentBy want script (rest.drop (min n want))

namespace Source

/-- All that a source gives to one who asks for at most `want` bytes at a time. -/
def content (want : Nat) (s : Source) : List UInt8 :=
  contentBy want s.script s.rest

variable {want : Nat} {s t : Source}

theorem content_of_read_ok {block : List UInt8} (hwant : 0 < want) (h : s.read want = (.ok block, t)) :
    s.content want = if block.isEmpty then [] else block ++ t.content want := by
  suffices hby : ∀ script : List ReadEvent, s.readBy want script = (.ok block, t) →
      contentBy want script s.rest = if block.isEmpty then [] else block ++ t.content want from
    hby s.script h
  intro script h
  induction script with
  | nil =>
    cases h
    show s.rest = if (s.rest.take want).isEmpty then [] else s.rest.take want ++ s.rest.drop want
    split
    · next hempty => exact rest_eq_nil_of_take hwant (List.isEmpty_iff.mp hempty)
    · exact (List.take_append_drop want s.rest).symm
  | cons event script ih =>
    cases event with
    | interrupted => exact ih h
    | fault text => cases h
    | upTo n =>
      cases h
      rfl

theorem content_of_read_error {text : String} (h : s.read want = (.error text, t)) :
    s.content want = [] := by
  suffices hby : ∀ script : List ReadEvent, s.readBy want script = (.error text, t) →
      contentBy want script s.rest = [] from hby s.script h
  intro script h
  induction script with
  | nil => cases h
  | cons event script ih =>
    cases event with
    | interrupted => exact ih h
    | fault text => rfl
    | upTo n => cases h

/-- Nothing but the bytes of the source is given, in their order. -/
theorem content_prefix (want : Nat) (s : Source) : s.content want <+: s.rest := by
  suffices hby : ∀ (script : List ReadEvent) (rest : List UInt8), contentBy want script rest <+: rest from
    hby s.script s.rest
  intro script rest
  induction script generalizing rest with
  | nil => exact List.prefix_refl rest
  | cons event script ih =>
    cases event with
    | interrupted => exact ih rest
    | fault text => exact List.nil_prefix
    | upTo n =>
      rw [contentBy]
      split
      · exact List.nil_prefix
      · have hmore := ih (rest.drop (min n want))
        rwa [← List.prefix_append_right_inj (rest.take (min n want)), List.take_append_drop] at hmore

/-- A source that does not fail gives all it has. -/
theorem Steady.content_eq (h : s.Steady) (hwant : 0 < want) : s.content want = s.rest := by
  suffices hby : ∀ (script : List ReadEvent) (rest : List UInt8),
      (∀ event ∈ script, event.isSteady = true) → contentBy want script rest = rest from
    hby s.script s.rest h
  intro script rest hsteady
  induction script generalizing rest with
  | nil => rfl
  | cons event script ih =>
    obtain ⟨hevent, hscript⟩ := List.forall_mem_cons.mp hsteady
    cases event with
    | interrupted => exact ih rest hscript
    | fault text => cases hevent
    | upTo n =>
      have hn : 0 < n := of_decide_eq_true hevent
      rw [contentBy]
      split
      · next hempty =>
        rcases List.take_eq_nil_iff.mp (List.isEmpty_iff.mp hempty) with h0 | h0
        · omega
        · exact h0.symm
      · rw [ih _ hscript, List.take_append_drop]

end Source
end Ipp

namespace Ipp.Channel

open Calls

/-! ## Emitting -/

/-- There is room for another byte, and nothing ran over the buffer. -/
structure Ready (c : Channel) : Prop where
  room : c.HasRoom
  guardByte : c.guardByte = intactGuard

/-- Going from `c` to `d` the channel has put `bytes`, unless the output has refused something. -/
structure Emits (c : Channel) (bytes : List UInt8) (d : Channel) : Prop where
  size : d.size = c.size
  script : d.sink.script <:+ c.sink.script
  ready : c.Ready → c.sink.Unbroken d.sink → d.Ready
  produced : c.Ready → c.sink.Unbroken d.sink → d.produced = c.produced ++ bytes

variable {c d e : Channel} {bytes bytes' : List UInt8} {x y : Action Unit}

theorem Emits.refl (c : Channel) : c.Emits [] c :=
  ⟨rfl, List.suffix_refl _, fun h _ => h, fun _ _ => (List.append_nil _).symm⟩

theorem Emits.trans (h : c.Emits bytes d) (h' : d.Emits bytes' e) : c.Emits (bytes ++ bytes') e where
  size := h'.size.trans h.size
  script := h'.script.trans h.script
  ready hc hu := by
    obtain ⟨hu', hu''⟩ := (Sink.unbroken_append h.script h'.script).mp hu
    exact h'.ready (h.ready hc hu') hu''
  produced hc hu := by
    obtain ⟨hu', hu''⟩ := (Sink.unbroken_append h.script h'.script).mp hu
    rw [h'.produced (h.ready hc hu') hu'', h.produced hc hu', List.append_assoc]

-- Where the output has refused something it does not matter what was put.
theorem Emits.of_broken (h : c.Emits bytes d) (hbroken : c.Ready → ¬c.sink.Unbroken d.sink)
    (bytes' : List UInt8) : c.Emits bytes' d :=
  ⟨h.size, h.script, h.ready, fun hc hu => absurd hu (hbroken hc)⟩

theorem emits_of_leavesOutput (h : c.LeavesOutput d) : c.Emits [] d where
  size := h.size
  script := h.sink ▸ List.suffix_refl _
  ready hc _ := by
    refine ⟨?_, h.guardByte.trans hc.guardByte⟩
    rw [HasRoom, h.pending, h.size]
    exact hc.room
  produced _ _ := by rw [produced, produced, h.sink, h.pending, List.append_nil]

/-- The call puts `bytes`, and fails only where the output has refused something. -/
structure Puts (bytes : List UInt8) (x : Action Unit) : Prop where
  emits : ∀ c : Channel, c.Emits bytes (final (x c))
  error : ∀ {c d : Channel} {fault : Fault}, x c = .error fault d → c.Ready → ¬c.sink.Unbroken d.sink

theorem Puts.emits_ok (h : Puts bytes x) (hx : x c = .ok () d) : c.Emits bytes d := by
  have := h.emits c
  rwa [hx] at this

theorem Puts.emits_error (h : Puts bytes x) {fault : Fault} (hx : x c = .error fault d) :
    c.Emits bytes d := by
  have := h.emits c
  rwa [hx] at this

theorem puts_pure : Puts [] (pure ()) :=
  ⟨Emits.refl, nofun⟩

theorem Puts.bind (hx : Puts bytes x) (hy : Puts bytes' y) : Puts (bytes ++ bytes') (do x; y) where
  emits c := by
    cases h : x c with
    | ok a d =>
      rw [bind_of_ok h]
      exact (hx.emits_ok h).trans (hy.emits d)
    | error fault d =>
      rw [bind_of_error h]
      exact (hx.emits_error h).of_broken (hx.error h) _
  error {c e fault} h hc hu := by
    cases hd : x c with
    | ok a d =>
      rw [bind_of_ok hd] at h
      have hemits := hx.emits_ok hd
      obtain ⟨hu', hu''⟩ := (Sink.unbroken_append hemits.script (hy.emits_error h).script).mp hu
      exact hy.error h (hemits.ready hc hu') hu''
    | error fault' d =>
      rw [bind_of_error hd] at h
      cases h
      exact hx.error hd hc hu

/-! ### The buffer -/

-- Sending needs no room.
theorem send_unbroken (c : Channel) :
    (∃ sink, send c = .ok () (c.sentTo sink) ∧ sink.bytes = c.produced ∧
      sink.script <:+ c.sink.script) ∨
    ∃ fault sink, send c = .error fault { c with sink } ∧ sink.script <:+ c.sink.script ∧
      ¬c.sink.Unbroken sink := by
  unfold send
  cases ho : c.sink.offer c.pending.toList with
  | mk outcome sink =>
    cases outcome with
    | ok done => exact .inl ⟨sink, rfl, (Sink.offer_ok ho).1, Sink.offer_script ho⟩
    | error refusal =>
      exact .inr ⟨_, sink, rfl, Sink.offer_script ho, Sink.not_unbroken_of_refusal ho⟩

-- Sending what was put into a channel, be it nothing.
theorem emits_send (c d : Channel) {b : List UInt8} (hsize : d.size = c.size) (hsink : d.sink = c.sink)
    (hguard : c.Ready → d.guardByte = intactGuard) (hproduced : d.produced = c.produced ++ b) :
    c.Emits b (final (send d)) ∧
      ∀ {fault : Fault} {e : Channel}, send d = .error fault e → ¬c.sink.Unbroken e.sink := by
  rcases d.send_unbroken with ⟨sink, h, hbytes, hscript⟩ | ⟨fault, sink, h, hscript, hbroken⟩
  · rw [hsink] at hscript
    rw [h]
    refine ⟨⟨hsize, hscript, fun hc _ => ⟨d.size_pos, hguard hc⟩, fun _ _ => ?_⟩, nofun⟩
    exact (produced_sentTo d sink).trans (hbytes.trans hproduced)
  · rw [hsink] at hscript hbroken
    rw [h]
    refine ⟨⟨hsize, hscript, fun _ hu => absurd hu hbroken, fun _ hu => absurd hu hbroken⟩, ?_⟩
    intro fault' e he
    cases he
    exact hbroken

theorem puts_send : Puts [] send where
  emits c := (emits_send c c rfl rfl Ready.guardByte (List.append_nil _).symm).1
  error {c _ _} h _ := (emits_send c c rfl rfl Ready.guardByte (List.append_nil _).symm).2 h

theorem puts_putByte (b : UInt8) : Puts [b] (putByte b) := by
  have hguard {c : Channel} (hc : c.Ready) : (c.pushed b).guardByte = intactGuard := by
    rw [pushed, if_neg (Nat.ne_of_lt hc.room), hc.guardByte]
  -- The byte falls behind the guard only where there was no room.
  refine ⟨fun c => ?_, fun {c d fault} h hc hu => ?_⟩
  · rw [putByte_eq]
    by_cases hover : c.size < c.pending.size
    · rw [if_pos hover]
      have hfull : ¬c.Ready := fun hc => Nat.lt_asymm hc.room hover
      exact ⟨rfl, List.suffix_refl _, fun hc _ => absurd hc hfull, fun hc _ => absurd hc hfull⟩
    rw [if_neg hover]
    by_cases hfull : (c.pushed b).pending.size = c.size
    · rw [if_pos hfull]
      exact (emits_send c (c.pushed b) rfl rfl hguard (produced_pushed c b)).1
    · rw [if_neg hfull]
      refine ⟨rfl, List.suffix_refl _, fun hc _ => ⟨?_, hguard hc⟩, fun _ _ => produced_pushed c b⟩
      have hroom : c.pending.size < c.size := hc.room
      have hsize : (c.pushed b).pending.size = c.pending.size + 1 := Array.size_push b
      show (c.pushed b).pending.size < c.size
      omega
  · rw [putByte_eq, if_neg (Nat.not_lt.mpr (Nat.le_of_lt hc.room))] at h
    split at h
    · exact (emits_send c (c.pushed b) rfl rfl hguard (produced_pushed c b)).2 h hu
    · cases h

theorem puts_putBytes (bytes : List UInt8) : Puts bytes (putBytes bytes) := by
  induction bytes with
  | nil => exact puts_pure
  | cons b bytes ih => exact (puts_putByte b).bind ih

theorem Primitive.puts_put (p : Primitive) : Puts p.wire p.put := by
  rw [p.put_eq]
  exact puts_putBytes p.wire

-- Flushing the output itself puts nothing, and takes nothing back when it fails.
theorem emits_sink {sink : Sink} (hbytes : sink.bytes = c.sink.bytes)
    (hscript : sink.script = c.sink.script) : c.Emits [] { c with sink } where
  size := rfl
  script := hscript ▸ List.suffix_refl _
  ready hc _ := ⟨hc.room, hc.guardByte⟩
  produced _ _ := by rw [produced, produced, hbytes, List.append_nil]

theorem emits_flush (c : Channel) : c.Emits [] (final (flush c)) := by
  cases hsend : send c with
  | error fault d =>
    rw [flush_of_error hsend]
    exact puts_send.emits_error hsend
  | ok a d =>
    rw [flush_of_ok hsend]
    have hemits := puts_send.emits_ok hsend
    cases hf : d.sink.flush with
    | mk outcome sink =>
      have hd : d.Emits [] { d with sink } := emits_sink (Sink.bytes_flush hf) (Sink.script_flush hf)
      cases outcome <;> exact hemits.trans hd

theorem emits_finish (c : Channel) : c.Emits [] (final (finish c)) := by
  rcases c.finish_cases with ⟨fault, d, h, hleaves⟩ | ⟨d, h, hleaves⟩
  · rw [h]
    exact emits_of_leavesOutput hleaves
  · rw [h]
    exact (emits_of_leavesOutput hleaves).trans (emits_flush d)

theorem finish_ok (h : finish c = .ok () d) : d.pending = #[] := by
  rcases c.finish_cases with ⟨fault, e, h', -⟩ | ⟨e, h', -⟩
  · rw [h] at h'
    cases h'
  · rw [h] at h'
    exact (flush_ok h'.symm).2.2

/-! ### Streams -/

theorem not_unbroken_of_sendThrough {fault : Fault} (h : sendThrough bytes c = .error fault d) :
    ¬c.sink.Unbroken d.sink := by
  unfold sendThrough at h
  cases ho : c.sink.offer bytes with
  | mk outcome sink =>
    rw [ho] at h
    cases outcome <;> cases h
    exact Sink.not_unbroken_of_refusal ho

-- What is sent past the buffer comes behind the bytes before it only where nothing is pending.
theorem emits_sendThrough (hp : c.pending = #[]) (bytes : List UInt8) :
    c.Emits bytes (final (sendThrough bytes c)) ∧ (final (sendThrough bytes c)).pending = #[] := by
  unfold sendThrough
  cases ho : c.sink.offer bytes with
  | mk outcome sink =>
    cases outcome with
    | error refusal =>
      have hbroken := Sink.not_unbroken_of_refusal ho
      exact ⟨⟨rfl, Sink.offer_script ho, fun hc _ => ⟨hc.room, hc.guardByte⟩,
        fun _ hu => absurd hu hbroken⟩, hp⟩
    | ok done =>
      refine ⟨⟨rfl, Sink.offer_script ho, fun hc _ => ⟨hc.room, hc.guardByte⟩, fun _ _ => ?_⟩, hp⟩
      show sink.bytes ++ c.pending.toList = c.sink.bytes ++ c.pending.toList ++ bytes
      rw [(Sink.offer_ok ho).1, hp, List.append_nil, List.append_nil]

/-- Sends what a source gives, past the buffer, a block at a time; `bound` is more than the number of
blocks. -/
def sendStreamWithin : (bound : Nat) → Source → Action Unit
  | 0, _ => pure ()
  | bound + 1, source =>
    match source.read fileBlock with
    | (.error text, _) => throw (.io text)
    | (.ok block, source) =>
      if block.isEmpty then pure ()
      else do
        sendThrough block
        sendStreamWithin bound source

/-- Sends what a source gives, behind all pending bytes. -/
def copyStream (source : Source) : Action Unit := do
  send
  sendStreamWithin (source.rest.length + 1) source

theorem emits_sendStreamWithin {bound : Nat} {source : Source} (hbound : source.rest.length < bound)
    (hp : c.pending = #[]) :
    c.Emits (source.content fileBlock) (final (sendStreamWithin bound source c)) ∧
      (final (sendStreamWithin bound source c)).pending = #[] := by
  induction bound generalizing source c with
  | zero => omega
  | succ bound ih =>
    rw [sendStreamWithin]
    cases hread : source.read fileBlock with
    | mk outcome source' =>
      cases outcome with
      | error text =>
        rw [Source.content_of_read_error hread]
        exact ⟨.refl c, hp⟩
      | ok block =>
        rw [Source.content_of_read_ok (by decide) hread]
        dsimp only
        by_cases hempty : block.isEmpty = true
        · rw [if_pos hempty, if_pos hempty]
          exact ⟨.refl c, hp⟩
        rw [if_neg hempty, if_neg hempty]
        obtain ⟨hemits, hp'⟩ := emits_sendThrough hp block
        cases hs : sendThrough block c with
        | error fault d =>
          rw [hs] at hemits hp'
          rw [bind_of_error hs]
          exact ⟨hemits.of_broken (fun _ => not_unbroken_of_sendThrough hs) _, hp'⟩
        | ok a d =>
          rw [hs] at hemits hp'
          have hlength := congrArg List.length (Source.read_ok hread).1.rest
          have hpos := List.length_pos_iff.mpr (mt List.isEmpty_iff.mpr hempty)
          rw [List.length_append] at hlength
          have hbound' : source'.rest.length < bound := by omega
          obtain ⟨hrest, hp''⟩ := ih hbound' hp'
          rw [bind_of_ok hs]
          exact ⟨hemits.trans hrest, hp''⟩

theorem emits_copyStream (source : Source) (c : Channel) :
    c.Emits (source.content fileBlock) (final (copyStream source c)) ∧
      (succeeded (copyStream source c) = true → (final (copyStream source c)).pending = #[]) := by
  unfold copyStream
  cases hs : send c with
  | error fault d =>
    rw [bind_of_error hs]
    exact ⟨(puts_send.emits_error hs).of_broken (puts_send.error hs) _, nofun⟩
  | ok a d =>
    obtain ⟨sink, hd, -, -⟩ := send_ok hs
    have hpending : d.pending = #[] := by rw [hd, sentTo]
    obtain ⟨hemits, hp⟩ := emits_sendStreamWithin (Nat.lt_succ_self _) hpending
    rw [bind_of_ok hs]
    exact ⟨(puts_send.emits_ok hs).trans hemits, fun _ => hp⟩

-- The last block may be empty.
theorem sendThrough_nil (c : Channel) : sendThrough [] c = .ok () c := by
  unfold sendThrough
  rw [Sink.offer_nil]

theorem sendBlocksWithin_nil (bound : Nat) (c : Channel) : sendBlocksWithin bound [] c = .ok () c := by
  induction bound with
  | zero => rfl
  | succ bound ih =>
    rw [sendBlocksWithin, List.take_nil, List.drop_nil, bind_of_ok (sendThrough_nil c)]
    exact ih

theorem sendBlocksWithin_eq {bound bound' : Nat} {content : List UInt8}
    (hbound : content.length ≤ bound * fileBlock) (hbound' : content.length < bound') (taken : Nat)
    (c : Channel) :
    sendBlocksWithin bound content c =
      sendStreamWithin bound' { rest := content, script := [], taken } c := by
  induction bound generalizing content bound' taken c with
  | zero =>
    have hnil : content = [] := List.length_eq_zero_iff.mp (by omega)
    subst hnil
    cases bound' with
    | zero => rfl
    | succ bound' => rfl
  | succ bound ih =>
    cases bound' with
    | zero => omega
    | succ bound' =>
      by_cases hnil : content = []
      · subst hnil
        exact sendBlocksWithin_nil (bound + 1) c
      have hread : ({ rest := content, script := [], taken } : Source).read fileBlock =
          (.ok (content.take fileBlock),
            ⟨content.drop fileBlock, [], taken + (content.take fileBlock).length⟩) :=
        rfl
      have hblock : (content.take fileBlock).isEmpty = false := by
        simpa [fileBlock] using hnil
      have hpos := List.length_pos_iff.mpr hnil
      have hdrop : (content.drop fileBlock).length = content.length - fileBlock := List.length_drop
      rw [sendBlocksWithin, sendStreamWithin, hread]
      dsimp only
      rw [hblock, if_neg Bool.false_ne_true]
      cases hs : sendThrough (content.take fileBlock) c with
      | error fault d => rw [bind_of_error hs, bind_of_error hs]
      | ok a d =>
        rw [bind_of_ok hs, bind_of_ok hs]
        refine ih ?_ ?_ _ d
        · rw [Nat.succ_mul] at hbound
          omega
        · rw [hdrop, fileBlock]
          omega

/-- A file is sent as any other source that does not fail. -/
theorem copyFile_eq (content : List UInt8) (c : Channel) :
    copyFile content c = copyStream { rest := content } c := by
  unfold copyFile copyStream
  cases hs : send c with
  | error fault d => rw [bind_of_error hs, bind_of_error hs]
  | ok a d =>
    have hbound : content.length ≤ (content.length / fileBlock + 1) * fileBlock := by
      rw [fileBlock]
      omega
    rw [bind_of_ok hs, bind_of_ok hs]
    exact sendBlocksWithin_eq hbound (Nat.lt_succ_self _) 0 d

/-! ## Calls on the write side -/

inductive WriteCall where
  | put (p : Primitive)
  | text (s : String)
  -- Copies bytes at hand.
  | copy (bytes : List UInt8)
  -- Copies the content of a file.
  | file (content : List UInt8)
  -- Copies what a source gives.
  | stream (source : Source)
  | flush
  | finish

namespace WriteCall

def perform : WriteCall → Action Unit
  | put p => p.put
  | text s => putText s
  | copy bytes => do let _ ← copyFrom bytes
  | file content => copyFile content
  | stream source => copyStream source
  | flush => Channel.flush
  | finish => Channel.finish

/-- The bytes that the call is to put. -/
def content : WriteCall → List UInt8
  | put p => p.wire
  | text s => Text.utf8 s
  | copy bytes | file bytes => bytes
  | stream source => source.content fileBlock
  | flush | finish => []

/-- Whether the call sends what is pending. -/
def isSending : WriteCall → Bool
  | put _ | text _ => false
  | copy _ | file _ | stream _ | flush | finish => true

end WriteCall

theorem copyFrom_eq (bytes : List UInt8) :
    (do let _ ← copyFrom bytes : Action Unit) = (do send; sendThrough bytes) := by
  unfold copyFrom
  simp only [bind_assoc, pure_bind, bind_pure_unit]

theorem emits_copyFrom (bytes : List UInt8) (c : Channel) :
    c.Emits bytes (final ((do let _ ← copyFrom bytes : Action Unit) c)) ∧
      (succeeded ((do let _ ← copyFrom bytes : Action Unit) c) = true →
        (final ((do let _ ← copyFrom bytes : Action Unit) c)).pending = #[]) := by
  rw [copyFrom_eq]
  cases hs : send c with
  | error fault d =>
    rw [bind_of_error hs]
    exact ⟨(puts_send.emits_error hs).of_broken (puts_send.error hs) bytes, nofun⟩
  | ok a d =>
    obtain ⟨sink, hd, -, -⟩ := send_ok hs
    have hpending : d.pending = #[] := by rw [hd, sentTo]
    obtain ⟨hemits, hp⟩ := emits_sendThrough hpending bytes
    rw [bind_of_ok hs]
    exact ⟨(puts_send.emits_ok hs).trans hemits, fun _ => hp⟩

theorem WriteCall.emits (call : WriteCall) (c : Channel) :
    c.Emits call.content (final (call.perform c)) := by
  cases call with
  | put p => exact p.puts_put.emits c
  | text s => exact (puts_putBytes (Text.utf8 s)).emits c
  | copy bytes => exact (emits_copyFrom bytes c).1
  | file content =>
    rw [perform, copyFile_eq]
    exact (emits_copyStream { rest := content } c).1
  | stream source => exact (emits_copyStream source c).1
  | flush => exact emits_flush c
  | finish => exact emits_finish c

theorem WriteCall.pending_eq_nil {call : WriteCall} (hcall : call.isSending = true)
    (h : succeeded (call.perform c) = true) : (final (call.perform c)).pending = #[] := by
  cases call with
  | put p => cases hcall
  | text s => cases hcall
  | copy bytes => exact (emits_copyFrom bytes c).2 h
  | file content =>
    rw [perform, copyFile_eq] at h ⊢
    exact (emits_copyStream { rest := content } c).2 h
  | stream source => exact (emits_copyStream source c).2 h
  | flush => exact (flush_ok (eq_ok_of_succeeded h)).2.2
  | finish => exact finish_ok (eq_ok_of_succeeded h)

/-- The channel after one call behind the other, whether they failed or not. -/
def afterWrites : List WriteCall → Channel → Channel
  | [], c => c
  | call :: calls, c => afterWrites calls (final (call.perform c))

theorem emits_afterWrites (calls : List WriteCall) (c : Channel) :
    c.Emits (calls.flatMap WriteCall.content) (afterWrites calls c) := by
  induction calls generalizing c with
  | nil => exact .refl c
  | cons call calls ih =>
    rw [List.flatMap_cons]
    exact (call.emits c).trans (ih (final (call.perform c)))

/-- What the output has accepted and what is pending are `bytes`, and the buffer of `size` bytes is in order.
-/
structure Accounted (bytes : List UInt8) (size : Nat) (c : Channel) : Prop where
  bytes : c.sink.bytes ++ c.pending.toList = bytes
  pending : c.pending.size < size
  guardByte : c.guardByte = intactGuard
  -- What was put before is sent when such a call succeeds.
  sent : ∀ call : WriteCall, call.isSending = true → succeeded (call.perform c) = true →
    (final (call.perform c)).pending = #[]

/-- After any calls by which the output has not refused anything, all that they were to put is accepted or
pending, in order: for every buffer and behaviour of the streams. Of a stream that is copied these are its
first bytes, and all of them where it does not fail. -/
theorem accounted_afterWrites (source : Source) (sink : Sink) (declared : Option Nat) (bufferSize : Nat)
    (calls : List WriteCall)
    (h : sink.Unbroken (afterWrites calls (opened source sink declared bufferSize)).sink) :
    Accounted (sink.bytes ++ calls.flatMap WriteCall.content) (max bufferSize 1)
        (afterWrites calls (opened source sink declared bufferSize)) ∧
      ∀ copied, .stream copied ∈ calls → (WriteCall.stream copied).content <+: copied.rest ∧
        (copied.Steady → (WriteCall.stream copied).content = copied.rest) := by
  have hready : (opened source sink declared bufferSize).Ready :=
    ⟨hasRoom_opened source sink declared bufferSize, rfl⟩
  have hemits := emits_afterWrites calls (opened source sink declared bufferSize)
  have hproduced := hemits.produced hready h
  have hroom := (hemits.ready hready h).room
  rw [HasRoom, hemits.size] at hroom
  have hopened : (opened source sink declared bufferSize).produced = sink.bytes := List.append_nil _
  rw [hopened] at hproduced
  refine ⟨⟨hproduced, hroom, (hemits.ready hready h).guardByte, fun _ => WriteCall.pending_eq_nil⟩, ?_⟩
  intro copied _
  exact ⟨copied.content_prefix fileBlock, fun hsteady => hsteady.content_eq (by decide)⟩

-- A buffer of two bytes, an output that takes bytes one by one and fails to flush, and fails later.
theorem accounted_small_buffer :
    let sink : Sink :=
      { script := [.upTo 1, .interrupted, .upTo 1, .upTo 7, .upTo 1, .upTo 1, .fault "gone"]
        flushFault := some "busy" }
    let calls : List WriteCall :=
      [.put (.byte 1), .put (.uint16 515), .flush, .stream { rest := [4, 5], script := [.upTo 1] }, .text "x"]
    sink.Unbroken (afterWrites calls (opened { rest := [] } sink none 2)).sink ∧
      Accounted [1, 2, 3, 4, 5, 120] 2 (afterWrites calls (opened { rest := [] } sink none 2)) := by
  intro sink calls
  have h : sink.Unbroken (afterWrites calls (opened { rest := [] } sink none 2)).sink := by decide
  exact ⟨h, (accounted_afterWrites { rest := [] } sink none 2 calls h).1⟩

end Ipp.Channel
