import Ipp.Proofs.Request.Acceptance
import Ipp.Proofs.Request.Alike

/-!
# Requests that break off

Over an input that breaks off within a request, reading goes as it does over the whole request, up to the
byte that is missing. The fault there tells how the end was found, and no other fault comes first.
-/

namespace Ipp

open Calls

variable {missing : List UInt8} {fault : Fault}

/-! ## The channel -/

namespace Channel

/-- `c` has to deliver what `d` has but for the bytes `missing` at the end, and fails with `fault` where
they are missing. -/
structure CutShort (missing : List UInt8) (fault : Fault) (c d : Channel) : Prop where
  steady : c.Steady
  starvation : c.starvation = fault
  upcoming : d.upcoming = c.upcoming ++ missing

theorem followsUnless_getByte : FollowsUnless (CutShort missing fault) fault getByte getByte := by
  intro c d h b d' hget
  obtain ⟨-, hd⟩ := getByte_ok hget
  cases hc : c.upcoming with
  | nil =>
    obtain ⟨c', hend⟩ := h.steady.getByte_end hc
    rw [h.starvation] at hend
    exact .inr ⟨c', hend⟩
  | cons b' rest =>
    rw [h.upcoming, hc, List.cons_append] at hd
    injection hd with hb hrest
    subst hb
    obtain ⟨c', hget', hreads, hu⟩ := h.steady.getByte_cons hc
    refine .inl ⟨c', hget', hreads.steady h.steady, hreads.starvation.trans h.starvation, ?_⟩
    rw [hu, hrest]

theorem followsUnless_getBytesOnto (n : Nat) (got : List UInt8) :
    FollowsUnless (CutShort missing fault) fault (getBytesOnto n got) (getBytesOnto n got) := by
  induction n generalizing got with
  | zero => exact followsUnless_pure _
  | succ n ih => exact followsUnless_getByte.bind fun b => ih (b :: got)

theorem followsUnless_getBytes (n : Nat) :
    FollowsUnless (CutShort missing fault) fault (getBytes n) (getBytes n) :=
  followsUnless_getBytesOnto n []

theorem followsUnless_getUInt16 : FollowsUnless (CutShort missing fault) fault getUInt16 getUInt16 :=
  (followsUnless_getBytes 2).bind fun _ => followsUnless_pure _

theorem followsUnless_getUInt32 : FollowsUnless (CutShort missing fault) fault getUInt32 getUInt32 :=
  (followsUnless_getBytes 4).bind fun _ => followsUnless_pure _

end Channel

/-! ## The attribute section -/

namespace Reader

/-- The same reader on two channels of which one is cut short. -/
inductive CutShort (missing : List UInt8) (fault : Fault) : Reader → Reader → Prop
  | through (r : Reader) {c d : Channel} (h : c.CutShort missing fault d) :
    CutShort missing fault (r.through c) (r.through d)

theorem followsUnless_onChannel {α : Type} {call : Channel.Action α}
    (h : FollowsUnless (Channel.CutShort missing fault) fault call call) :
    FollowsUnless (CutShort missing fault) fault (onChannel call) (onChannel call) := by
  rintro _ _ ⟨r, hcd⟩ a t' hok
  obtain ⟨d', hd, rfl⟩ := onChannel_eq_ok.mp hok
  rcases h _ _ hcd a d' hd with ⟨c', hc, hcd'⟩ | ⟨c', hc⟩
  · exact .inl ⟨_, onChannel_of_ok hc, .through r hcd'⟩
  · refine .inr ⟨r.through c', ?_⟩
    unfold onChannel
    dsimp only [through]
    rw [hc]

-- A step that does not touch the channel.
theorem followsUnless_step {u : Reader → Reader} (h : ∀ r c, u (r.through c) = (u r).through c) :
    FollowsUnless (CutShort missing fault) fault (modify u : Action PUnit) (modify u) := by
  apply followsUnless_modify
  rintro _ _ ⟨r, hcd⟩
  rw [h, h]
  exact .through (u r) hcd

theorem followsUnless_getCounted :
    FollowsUnless (CutShort missing fault) fault getCounted getCounted :=
  (followsUnless_onChannel Channel.followsUnless_getUInt16).bind fun length =>
    followsUnless_onChannel (Channel.followsUnless_getBytes length.toNat)

theorem followsUnless_readNamed (tag : ValueTag) (length : UInt16) :
    FollowsUnless (CutShort missing fault) fault (readNamed tag length) (readNamed tag length) := by
  apply (followsUnless_onChannel (Channel.followsUnless_getBytes length.toNat)).bind
  intro bytes
  apply followsUnless_getCounted.bind
  intro value
  apply followsUnless_get_bind
  rintro _ _ ⟨r, -⟩
  dsimp only [through]
  cases r.group with
  | none => exact followsUnless_throw _
  | some group =>
    dsimp only
    cases Value.decode tag (Text.ofUtf8Lossy bytes) value with
    | error e => exact followsUnless_throw e
    | ok v => exact followsUnless_step fun _ _ => rfl

theorem followsUnless_readAdditional (tag : ValueTag) :
    FollowsUnless (CutShort missing fault) fault (readAdditional tag) (readAdditional tag) := by
  apply followsUnless_get_bind
  rintro _ _ ⟨r, -⟩
  dsimp only [through]
  cases r.current with
  | none => exact followsUnless_throw _
  | some a =>
    apply followsUnless_getCounted.bind
    intro bytes
    have hextend : ∀ v, FollowsUnless (CutShort missing fault) fault
        (modify fun r => r.extend a v : Action PUnit) (modify fun r => r.extend a v) :=
      fun v => followsUnless_step fun _ _ => rfl
    apply followsUnless_ite
    · cases Value.decode tag a.name bytes with
      | error e => exact followsUnless_throw e
      | ok v => exact hextend v
    · apply followsUnless_ite
      · exact (followsUnless_step fun _ _ => rfl).bind fun _ => hextend _
      · exact hextend _

theorem followsUnless_readPart : FollowsUnless (CutShort missing fault) fault readPart readPart := by
  apply (followsUnless_onChannel Channel.followsUnless_getByte).bind
  intro tag
  apply followsUnless_ite (followsUnless_pure _)
  apply followsUnless_ite
  · cases Group.ofDelimiter? tag with
    | none => exact followsUnless_throw _
    | some group => exact (followsUnless_step fun _ _ => rfl).bind fun _ => followsUnless_pure _
  · apply (followsUnless_onChannel Channel.followsUnless_getUInt16).bind
    intro length
    apply followsUnless_ite
    · exact (followsUnless_readAdditional ⟨tag⟩).bind fun _ => followsUnless_pure _
    · exact (followsUnless_readNamed ⟨tag⟩ length).bind fun _ => followsUnless_pure _

theorem followsUnless_readWithin (bound : Nat) :
    FollowsUnless (CutShort missing fault) fault (readWithin bound) (readWithin bound) := by
  induction bound with
  | zero => exact followsUnless_throw _
  | succ bound ih =>
    apply followsUnless_readPart.bind
    intro goesOn
    exact followsUnless_ite ih (followsUnless_pure _)

-- Every part takes at least one byte.
theorem left_lt_of_readPart {r s : Reader} {goesOn : Bool} (h : readPart r = .ok goesOn s) :
    s.channel.left < r.channel.left := by
  obtain ⟨hreads, hpart⟩ := readPart_ok h
  have hshorter : s.channel.upcoming.length < r.channel.upcoming.length := by
    cases hpart with
    | ending hu => rw [hu, List.length_cons]; omega
    | delimiter g hu => rw [hu, List.length_cons]; omega
    | named i _ _ _ hu =>
      have hpos := List.length_pos_iff.mpr i.bytes_ne_nil
      rw [hu, List.length_append]
      omega
    | nameless v _ hu =>
      have hpos := List.length_pos_iff.mpr (AttributeForm.nameless v).bytes_ne_nil
      rw [hu, List.length_append]
      omega
  rw [Channel.left_eq, Channel.left_eq, hreads.beyond]
  omega

-- So no bound above what is left is ever reached, and all of them do the same.
theorem readWithin_of_left_lt {r : Reader} {n m : Nat} (hn : r.channel.left < n)
    (hm : r.channel.left < m) : readWithin n r = readWithin m r := by
  induction n generalizing r m with
  | zero => omega
  | succ n ih =>
  cases m with
  | zero => omega
  | succ m =>
  rw [readWithin, readWithin]
  cases hpart : readPart r with
  | error e s => rw [bind_of_error hpart, bind_of_error hpart]
  | ok goesOn s =>
    have hleft := left_lt_of_readPart hpart
    rw [bind_of_ok hpart, bind_of_ok hpart]
    cases goesOn with
    | false => rfl
    | true => exact ih (by omega) (by omega)

theorem followsUnless_read : FollowsUnless (CutShort missing fault) fault read read := by
  intro r s hrs a t h
  -- The two bounds differ; one above both serves the two readers alike.
  have hcommon : ∀ u : Reader, u.channel.left ≤ r.channel.left + s.channel.left →
      read u = readWithin (r.channel.left + s.channel.left + 1) u :=
    fun u hu => readWithin_of_left_lt (Nat.lt_succ_self _) (Nat.lt_succ_of_le hu)
  rw [hcommon s (Nat.le_add_left _ _)] at h
  rw [hcommon r (Nat.le_add_right _ _)]
  exact followsUnless_readWithin _ r s hrs a t h

end Reader

/-! ## Whole requests -/

namespace Exchange

/-- The channels of the two exchanges, of which one is cut short. -/
def CutShort (missing : List UInt8) (fault : Fault) (e e' : Exchange) : Prop :=
  e.channel.CutShort missing fault e'.channel

theorem followsUnless_onChannel {α : Type} {call : Channel.Action α}
    (h : FollowsUnless (Channel.CutShort missing fault) fault call call) :
    FollowsUnless (CutShort missing fault) fault (onChannel call) (onChannel call) := by
  intro e e' hcut a t h'
  obtain ⟨d, hd, rfl⟩ := onChannel_eq_ok.mp h'
  rcases h _ _ hcut a d hd with ⟨c, hc, hcd⟩ | ⟨c, hc⟩
  · exact .inl ⟨_, onChannel_of_ok hc, hcd⟩
  · refine .inr ⟨{ e with channel := c }, ?_⟩
    rw [onChannel, hc]

theorem followsUnless_headerFields :
    FollowsUnless (CutShort missing fault) fault headerFields headerFields := by
  have hset : ∀ u : Header → Header, FollowsUnless (CutShort missing fault) fault
      (modify fun e => { e with header := u e.header } : Action PUnit)
      (modify fun e => { e with header := u e.header }) :=
    fun u => followsUnless_modify fun _ _ h => h
  refine (followsUnless_onChannel Channel.followsUnless_getByte).bind fun major => ?_
  refine (hset fun h => { h with major }).bind fun _ => ?_
  refine (followsUnless_onChannel Channel.followsUnless_getByte).bind fun minor => ?_
  refine (hset fun h => { h with minor }).bind fun _ => ?_
  refine (followsUnless_onChannel Channel.followsUnless_getUInt16).bind fun operation => ?_
  refine (hset fun h => { h with operation }).bind fun _ => ?_
  refine (followsUnless_onChannel Channel.followsUnless_getUInt32).bind fun requestId => ?_
  exact hset fun h => { h with requestId }

theorem followsUnless_parseBody :
    FollowsUnless (CutShort missing fault) fault parseBody parseBody := by
  intro e e' hcut a t h
  obtain ⟨r, hr, log, rfl⟩ := parseBody_ok h
  let reader : Reader := { channel := e.channel }
  rcases Reader.followsUnless_read _ _ (.through reader hcut) a r hr with ⟨s, hs, hsr⟩ | ⟨s, hs⟩
  · obtain ⟨log', hbody⟩ := parseBody_of_read hs
    refine .inl ⟨_, hbody, ?_⟩
    cases hsr with
    | through _ hcd => exact hcd
  · refine .inr ⟨e.adopt s, ?_⟩
    have hread : Reader.read { channel := e.channel } = .error fault s := hs
    rw [parseBody, hread]

-- Where the declared length allows a header, the request is read through.
theorem parse_of_enough {e : Exchange} (h : e.DeclaresEnough) :
    parse e = (do headerFields; parseBody : Action Unit) e := by
  have hheader := parseHeader_of_enough h
  rw [parse]
  cases hfields : headerFields e with
  | ok a e' => rw [bind_of_ok (hheader.trans hfields), bind_of_ok hfields]
  | error fault e' => rw [bind_of_error (hheader.trans hfields), bind_of_error hfields]

/-- Why a request cannot be read that breaks off, where so much is declared and the input holds so many bytes
of it. -/
def truncationFault (declared : Option Nat) (held : Nat) : Fault :=
  match declared with
  | none => .dataRunoff
  | some n =>
    if n ≤ Header.length then .requestTooShort n else if held < n then .prematureEof else .dataRunoff

section Truncated

variable {config : Config} {source : Source} {sink : Sink} {declared : Option Nat}

theorem starvation_opened (h : (opened config source sink declared).DeclaresEnough) :
    (opened config source sink declared).channel.starvation =
      truncationFault declared source.rest.length := by
  cases declared with
  | none => rfl
  | some n =>
    have hn : ¬n ≤ Header.length := Nat.not_le.mpr (h n rfl)
    have hshort : (opened config source sink (some n)).channel.isShort =
        decide (source.rest.length < n) := rfl
    rw [truncationFault, if_neg hn, Channel.starvation, hshort]
    simp only [decide_eq_true_eq]

theorem parse_of_not_enough (h : ¬(opened config source sink declared).DeclaresEnough) :
    ∃ e, parse (opened config source sink declared) =
      .error (truncationFault declared source.rest.length) e := by
  obtain ⟨n, hn, hfault⟩ := parseHeader_of_not_enough h
  have hdeclared : declared = some n := hn
  have hshort : n ≤ Header.length := by
    refine Nat.not_lt.mp fun hlt => h fun m hm => ?_
    rw [hn] at hm
    cases hm
    exact hlt
  subst hdeclared
  rw [truncationFault, if_pos hshort]
  exact ⟨_, bind_of_error hfault _⟩

-- An input that breaks off within a request is cut short of an input that holds it.
theorem cutShort_opened (hs : source.Steady) {whole : List UInt8} (hcut : whole = source.rest ++ missing)
    (h : (opened config source sink declared).DeclaresEnough) :
    ∃ beyond, CutShort (beyond ++ missing) (truncationFault declared source.rest.length)
      (opened config source sink declared) (opened {} { rest := whole } {} none) := by
  let c := (opened config source sink declared).channel
  have hheld : c.untaken ++ c.beyond = source.rest := c.untaken_append_beyond
  refine ⟨c.beyond, Channel.steady_opened hs sink declared _, starvation_opened h, ?_⟩
  show whole = c.untaken ++ (c.beyond ++ missing)
  rw [← List.append_assoc, hheld]
  exact hcut

/-- Over an input that breaks off within a well-formed request, the request is never read, and the fault
tells only how the end was found. -/
theorem parse_of_cut (hs : source.Steady) {f : RequestForm} (hf : f.WellFormed) (hmissing : missing ≠ [])
    (hcut : f.bytes = source.rest ++ missing) :
    ∃ e, parse (opened config source sink declared) =
      .error (truncationFault declared source.rest.length) e := by
  by_cases henough : (opened config source sink declared).DeclaresEnough
  case neg => exact parse_of_not_enough henough
  obtain ⟨beyond, hrelated⟩ := cutShort_opened hs hcut henough
  let whole : Exchange := opened {} { rest := f.bytes } {} none
  have hwhole : whole.channel.Steady := Channel.steady_opened (fun _ h => absurd h List.not_mem_nil) {} none _
  have henough' : whole.DeclaresEnough := by
    intro n hn
    cases hn
  have hu : whole.channel.upcoming = f.bytes ++ [] := (List.append_nil _).symm
  obtain ⟨c, log, hparse, -, hend⟩ := parse_of_bytes hwhole henough' hf hu
  rw [parse_of_enough henough'] at hparse
  rw [parse_of_enough henough]
  rcases (followsUnless_headerFields.bind fun _ => followsUnless_parseBody) _ _ hrelated _ _ hparse with
    ⟨e, -, hcutShort⟩ | hfault
  · -- It would have been read to its end without the bytes that are missing.
    have hnil : c.upcoming = e.channel.upcoming ++ (beyond ++ missing) := hcutShort.upcoming
    rw [hend] at hnil
    exact absurd (List.append_eq_nil_iff.mp (List.append_eq_nil_iff.mp hnil.symm).2).2 hmissing
  · exact hfault

end Truncated

/-- A request that breaks off is never taken for a whole one. When the length of the whole request was
declared, the end comes too early; when no length was declared, or the length of what there is, the bytes run
out, unless that length is refused at once. There is no other fault. -/
theorem truncation_detected (config : Config) {source : Source} (hs : source.Steady) (sink : Sink)
    {f : RequestForm} (hf : f.WellFormed) (hmissing : missing ≠ [])
    (hcut : f.bytes = source.rest ++ missing) :
    (∀ declared e, parse (opened config source sink declared) ≠ .ok () e) ∧
      (∃ e, parse (opened config source sink (some f.bytes.length)) = .error .prematureEof e) ∧
      (∃ e, parse (opened config source sink none) = .error .dataRunoff e) ∧
      (source.rest.length ≤ Header.length → ∃ e, parse (opened config source sink (some source.rest.length)) =
        .error (.requestTooShort source.rest.length) e) ∧
      (Header.length < source.rest.length → ∃ e, parse (opened config source sink (some source.rest.length)) =
        .error .dataRunoff e) := by
  have hfault : ∀ declared, ∃ e, parse (opened config source sink declared) =
      .error (truncationFault declared source.rest.length) e :=
    fun _ => parse_of_cut hs hf hmissing hcut
  have hless : source.rest.length < f.bytes.length := by
    have hpos := List.length_pos_iff.mpr hmissing
    rw [hcut, List.length_append]
    omega
  refine ⟨fun declared e hok => ?_, ?_, hfault none, fun hshort => ?_, fun hlong => ?_⟩
  · obtain ⟨e', herror⟩ := hfault declared
    rw [herror] at hok
    cases hok
  · have hwhole := hfault (some f.bytes.length)
    rwa [truncationFault, if_neg (Nat.not_le.mpr f.header_lt_length), if_pos hless] at hwhole
  · have hheld := hfault (some source.rest.length)
    rwa [truncationFault, if_pos hshort] at hheld
  · have hheld := hfault (some source.rest.length)
    rwa [truncationFault, if_neg (Nat.not_le.mpr hlong), if_neg (Nat.lt_irrefl _)] at hheld

/-- The request for the attributes of a printer, which breaks off behind the tag of its second value. -/
def tornSource : Source :=
  { rest := inquiry.bytes.take 17, script := [.upTo 1, .interrupted, .upTo 3] }

theorem truncation_detected_torn :
    (∃ e, parse (opened {} tornSource {} (some 30)) = .error .prematureEof e) ∧
      (∃ e, parse (opened {} tornSource {} none) = .error .dataRunoff e) ∧
      ∃ e, parse (opened {} tornSource {} (some 17)) = .error .dataRunoff e := by
  have hsteady : tornSource.Steady := by decide
  have hform : inquiry.WellFormed := by decide
  have hmissing : inquiry.bytes.drop 17 ≠ [] := by decide
  have hcut : inquiry.bytes = tornSource.rest ++ inquiry.bytes.drop 17 := by decide
  obtain ⟨-, hwhole, hnone, -, hlong⟩ := truncation_detected {} hsteady {} hform hmissing hcut
  exact ⟨hwhole, hnone, hlong (by decide)⟩

end Exchange
end Ipp
