import Ipp.Stream.Sink
import Ipp.Stream.Source

/-!
# Streams

What one call does to a stream whatever its script says, that no call fails on a stream whose script holds
only positive counts and interruptions, and what a stream has met with that has not failed.
-/

namespace Ipp

/-! ## Inputs -/

/-- The input gives something, or is interrupted and asked again. -/
def ReadEvent.isSteady : ReadEvent → Bool
  | .upTo n => 0 < n
  | .interrupted => true
  | .fault _ => false

namespace Source

/-- No call on the input fails, or gives nothing before the end. -/
def Steady (s : Source) : Prop :=
  ∀ event ∈ s.script, event.isSteady = true

instance (s : Source) : Decidable s.Steady :=
  inferInstanceAs (Decidable (∀ event ∈ s.script, event.isSteady = true))

theorem Steady.of_suffix {s t : Source} (h : s.Steady) (hs : t.script <:+ s.script) : t.Steady :=
  fun event he => h event (hs.subset he)

/-- `t` is what is left of `s` after a call that gave `bytes`. -/
structure Gave (s : Source) (bytes : List UInt8) (t : Source) : Prop where
  rest : s.rest = bytes ++ t.rest
  taken : t.taken = s.taken + bytes.length
  script : t.script <:+ s.script

theorem gave_give (s : Source) (n : Nat) {script : List ReadEvent} (h : script <:+ s.script) :
    s.Gave (s.give n script).1 (s.give n script).2 where
  rest := (s.give_append_rest n script).symm
  taken := s.taken_give n script
  script := h

theorem readBy_ok {s t : Source} {want : Nat} {bytes : List UInt8} {script : List ReadEvent}
    (hs : script <:+ s.script) (h : s.readBy want script = (.ok bytes, t)) :
    s.Gave bytes t ∧ bytes.length ≤ want := by
  induction script with
  | nil =>
    cases h
    exact ⟨s.gave_give want hs, List.length_take_le want s.rest⟩
  | cons event script ih =>
    have hs' : script <:+ s.script := (List.suffix_cons event script).trans hs
    cases event with
    | interrupted => exact ih hs' h
    | fault text => cases h
    | upTo n =>
      cases h
      refine ⟨s.gave_give (min n want) hs', ?_⟩
      exact Nat.le_trans (List.length_take_le _ _) (Nat.min_le_right n want)

theorem readBy_error {s t : Source} {want : Nat} {text : String} {script : List ReadEvent}
    (hs : script <:+ s.script) (h : s.readBy want script = (.error text, t)) : s.Gave [] t := by
  induction script with
  | nil => cases h
  | cons event script ih =>
    have hs' : script <:+ s.script := (List.suffix_cons event script).trans hs
    cases event with
    | interrupted => exact ih hs' h
    | upTo n => cases h
    | fault text =>
      cases h
      exact ⟨rfl, rfl, hs'⟩

theorem read_ok {s t : Source} {want : Nat} {bytes : List UInt8}
    (h : s.read want = (.ok bytes, t)) : s.Gave bytes t ∧ bytes.length ≤ want :=
  readBy_ok (List.suffix_refl _) h

theorem read_error {s t : Source} {want : Nat} {text : String}
    (h : s.read want = (.error text, t)) : s.Gave [] t :=
  readBy_error (List.suffix_refl _) h

-- An input fails only where its script says so.
theorem fault_mem_of_read {s t : Source} {want : Nat} {text : String}
    (h : s.read want = (.error text, t)) : .fault text ∈ s.script := by
  suffices hby : ∀ script : List ReadEvent, s.readBy want script = (.error text, t) →
      .fault text ∈ script from hby s.script h
  intro script h
  induction script with
  | nil => cases h
  | cons event script ih =>
    cases event with
    | interrupted => exact List.mem_cons_of_mem _ (ih h)
    | upTo n => cases h
    | fault text' =>
      cases h
      exact List.mem_cons_self

theorem rest_eq_nil_of_take {s : Source} {n : Nat} (hn : 0 < n) (h : s.rest.take n = []) :
    s.rest = [] := by
  rcases List.take_eq_nil_iff.mp h with h0 | h0
  · omega
  · exact h0

-- A steady input gives nothing only when it has nothing left.
theorem Steady.read {s : Source} (h : s.Steady) {want : Nat} (hw : 0 < want) :
    ∃ bytes t, s.read want = (.ok bytes, t) ∧ (bytes = [] → s.rest = []) := by
  suffices hby : ∀ script : List ReadEvent, (∀ event ∈ script, event.isSteady = true) →
      ∃ bytes t, s.readBy want script = (.ok bytes, t) ∧ (bytes = [] → s.rest = []) from
    hby s.script h
  intro script hs
  induction script with
  | nil => exact ⟨_, _, rfl, rest_eq_nil_of_take hw⟩
  | cons event script ih =>
    have hs' : ∀ event ∈ script, event.isSteady = true :=
      fun e he => hs e (List.mem_cons_of_mem _ he)
    cases event with
    | interrupted => exact ih hs'
    | fault text => simp [ReadEvent.isSteady] at hs
    | upTo n =>
      have hn : 0 < n := by simpa [ReadEvent.isSteady] using hs (.upTo n) List.mem_cons_self
      exact ⟨_, _, rfl, rest_eq_nil_of_take (by omega)⟩

-- An input gives nothing only where its script says so, or when it has nothing left.
theorem read_nil {s t : Source} {want : Nat} (hw : 0 < want) (h : s.read want = (.ok [], t)) :
    .upTo 0 ∈ s.script ∨ s.rest = [] := by
  suffices hby : ∀ script : List ReadEvent, s.readBy want script = (.ok [], t) →
      .upTo 0 ∈ script ∨ s.rest = [] from hby s.script h
  intro script h
  induction script with
  | nil =>
    have htake : s.rest.take want = [] := Except.ok.inj (congrArg Prod.fst h)
    exact .inr (rest_eq_nil_of_take hw htake)
  | cons event script ih =>
    cases event with
    | interrupted => exact (ih h).imp_left (List.mem_cons_of_mem _)
    | fault text => cases h
    | upTo n =>
      cases n with
      | zero => exact .inl List.mem_cons_self
      | succ n =>
        have htake : s.rest.take (min (n + 1) want) = [] := Except.ok.inj (congrArg Prod.fst h)
        exact .inr (rest_eq_nil_of_take (by omega) htake)

/-- The most that the next call gives, where the script limits it. -/
def firstLimit : List ReadEvent → Option Nat
  | [] => none
  | .upTo n :: _ => some n
  | .interrupted :: script | .fault _ :: script => firstLimit script

-- A steady input gives as much as it has, as is asked for, and as this limit allows.
theorem Steady.read_length {s : Source} (h : s.Steady) (want : Nat) :
    ∃ bytes t, s.read want = (.ok bytes, t) ∧
      ∀ m, m ≤ bytes.length ↔ m ≤ s.rest.length ∧ m ≤ want ∧ ∀ k ∈ firstLimit s.script, m ≤ k := by
  suffices hby : ∀ script : List ReadEvent, (∀ event ∈ script, event.isSteady = true) →
      ∃ bytes t, s.readBy want script = (.ok bytes, t) ∧
        ∀ m, m ≤ bytes.length ↔ m ≤ s.rest.length ∧ m ≤ want ∧ ∀ k ∈ firstLimit script, m ≤ k from
    hby s.script h
  intro script hs
  induction script with
  | nil =>
    refine ⟨s.rest.take want, _, rfl, fun m => ?_⟩
    rw [List.length_take]
    simp only [firstLimit, Option.not_mem_none, false_implies, implies_true, and_true]
    omega
  | cons event script ih =>
    cases event with
    | interrupted => exact ih fun e he => hs e (List.mem_cons_of_mem _ he)
    | fault text => simp [ReadEvent.isSteady] at hs
    | upTo n =>
      refine ⟨s.rest.take (min n want), _, rfl, fun m => ?_⟩
      rw [List.length_take]
      simp only [firstLimit, Option.mem_def, Option.some.injEq, forall_eq']
      omega

/-! ### Inputs that have not failed -/

/-- On the calls that led from `s` to `t` the input gave something or was interrupted: none of them failed
or gave nothing. -/
def Unbroken (s t : Source) : Prop :=
  ∃ used, s.script = used ++ t.script ∧ ∀ event ∈ used, event.isSteady = true

variable {s t u : Source}

theorem Unbroken.refl (s : Source) : s.Unbroken s :=
  ⟨[], rfl, nofun⟩

theorem Unbroken.trans (h : s.Unbroken t) (h' : t.Unbroken u) : s.Unbroken u := by
  obtain ⟨used, hs, hused⟩ := h
  obtain ⟨used', ht, hused'⟩ := h'
  refine ⟨used ++ used', by rw [hs, ht, List.append_assoc], fun event hevent => ?_⟩
  rcases List.mem_append.mp hevent with hevent | hevent
  · exact hused event hevent
  · exact hused' event hevent

-- What has happened is told by the script before and after.
theorem Unbroken.steady_of_used (h : s.Unbroken t) {used : List ReadEvent}
    (hs : s.script = used ++ t.script) : ∀ event ∈ used, event.isSteady = true := by
  obtain ⟨used', hs', hsteady⟩ := h
  rw [List.append_cancel_right (hs.symm.trans hs')]
  exact hsteady

theorem unbroken_of_read {want : Nat} {bytes : List UInt8} (h : s.read want = (.ok bytes, t))
    (hne : bytes ≠ []) : s.Unbroken t := by
  suffices hby : ∀ script : List ReadEvent, s.readBy want script = (.ok bytes, t) →
      ∃ used, script = used ++ t.script ∧ ∀ event ∈ used, event.isSteady = true from hby s.script h
  intro script h
  induction script with
  | nil =>
    cases h
    exact ⟨[], rfl, nofun⟩
  | cons event script ih =>
    cases event with
    | interrupted =>
      obtain ⟨used, rfl, hused⟩ := ih h
      exact ⟨.interrupted :: used, rfl, List.forall_mem_cons.mpr ⟨rfl, hused⟩⟩
    | fault text => cases h
    | upTo n =>
      cases h
      have hpos : 0 < n := by
        refine Nat.pos_of_ne_zero fun hzero => hne ?_
        rw [hzero, Nat.zero_min]
        exact List.take_zero
      refine ⟨[.upTo n], rfl, fun event hevent => ?_⟩
      rw [List.mem_singleton.mp hevent]
      exact decide_eq_true hpos

end Source

/-! ## Outputs -/

/-- The output accepts something, or is interrupted and asked again. -/
def WriteEvent.isSteady : WriteEvent → Bool
  | .upTo n => 0 < n
  | .interrupted => true
  | .fault _ => false

namespace Sink

/-- How the next flushes end. -/
def flushes (s : Sink) : List (Option String) :=
  s.flushFault :: s.laterFlushes

/-- No call on the output fails. -/
structure Steady (s : Sink) : Prop where
  script : ∀ event ∈ s.script, event.isSteady = true
  flushes : ∀ outcome ∈ s.flushes, outcome = none

instance (s : Sink) : Decidable s.Steady :=
  decidable_of_iff
    ((∀ event ∈ s.script, event.isSteady = true) ∧ ∀ outcome ∈ s.flushes, outcome = none)
    ⟨fun h => ⟨h.1, h.2⟩, fun h => ⟨h.script, h.flushes⟩⟩

theorem offerBy_ok {s t : Sink} {bytes : List UInt8} {script : List WriteEvent}
    (h : s.offerBy bytes script = (.ok (), t)) :
    t.bytes = s.bytes ++ bytes ∧ t.script <:+ script ∧ t.flushes = s.flushes := by
  induction script generalizing s bytes with
  | nil =>
    cases h
    exact ⟨s.bytes_accept bytes [], List.suffix_refl _, rfl⟩
  | cons event script ih =>
    rw [offerBy.eq_def] at h
    dsimp only at h
    split at h
    · next hb =>
      cases h
      rw [List.isEmpty_iff.mp hb, List.append_nil]
      exact ⟨rfl, List.suffix_refl _, rfl⟩
    · split at h
      · obtain ⟨hbytes, hscript, hflush⟩ := ih h
        exact ⟨hbytes, hscript.trans (List.suffix_cons _ _), hflush⟩
      · cases h
      · cases h
      · next n _ =>
        obtain ⟨hbytes, hscript, hflush⟩ := ih h
        refine ⟨?_, hscript.trans (List.suffix_cons _ _), hflush⟩
        rw [hbytes, bytes_accept, List.append_assoc, List.take_append_drop]

theorem offer_ok {s t : Sink} {bytes : List UInt8} (h : s.offer bytes = (.ok (), t)) :
    t.bytes = s.bytes ++ bytes ∧ t.script <:+ s.script ∧ t.flushes = s.flushes :=
  offerBy_ok h

-- What was accepted before an output refused is a part of what it was offered.
theorem offerBy_error {s t : Sink} {bytes : List UInt8} {script : List WriteEvent} {refusal : Refusal}
    (h : s.offerBy bytes script = (.error refusal, t)) :
    ∃ k < bytes.length, t.bytes = s.bytes ++ bytes.take k := by
  induction script generalizing s bytes with
  | nil => cases h
  | cons event script ih =>
    rw [offerBy.eq_def] at h
    dsimp only at h
    split at h
    · cases h
    next hb =>
    have hpos : 0 < bytes.length := List.length_pos_iff.mpr (mt List.isEmpty_iff.mpr hb)
    have hnone : s.bytes = s.bytes ++ bytes.take 0 := by rw [List.take_zero, List.append_nil]
    split at h
    · exact ih h
    · cases h
      exact ⟨0, hpos, hnone⟩
    · cases h
      exact ⟨0, hpos, hnone⟩
    · next n _ =>
      obtain ⟨k, hk, hbytes⟩ := ih h
      rw [List.length_drop] at hk
      refine ⟨n + k, by omega, ?_⟩
      rw [hbytes, bytes_accept, List.append_assoc, List.take_add]

theorem offer_error {s t : Sink} {bytes : List UInt8} {refusal : Refusal}
    (h : s.offer bytes = (.error refusal, t)) :
    ∃ k < bytes.length, t.bytes = s.bytes ++ bytes.take k :=
  offerBy_error h

theorem Steady.of_suffix {s t : Sink} (h : s.Steady) (hs : t.script <:+ s.script)
    (hf : t.flushes = s.flushes) : t.Steady where
  script event he := h.script event (hs.subset he)
  flushes := hf ▸ h.flushes

-- A steady output accepts whatever is offered.
theorem Steady.offer {s : Sink} (h : s.Steady) (bytes : List UInt8) :
    ∃ t, s.offer bytes = (.ok (), t) ∧ t.bytes = s.bytes ++ bytes ∧ t.Steady := by
  suffices hby : ∀ (script : List WriteEvent) (s : Sink) (bytes : List UInt8),
      (∀ event ∈ script, event.isSteady = true) → ∃ t, s.offerBy bytes script = (.ok (), t) by
    obtain ⟨t, ht⟩ := hby s.script s bytes h.script
    obtain ⟨hbytes, hscript, hflush⟩ := offer_ok ht
    exact ⟨t, ht, hbytes, h.of_suffix hscript hflush⟩
  intro script
  induction script with
  | nil => exact fun s bytes _ => ⟨_, rfl⟩
  | cons event script ih =>
    intro s bytes hs
    have hs' : ∀ event ∈ script, event.isSteady = true :=
      fun e he => hs e (List.mem_cons_of_mem _ he)
    rw [offerBy.eq_def]
    dsimp only
    split
    · exact ⟨_, rfl⟩
    · split
      · exact ih s bytes hs'
      · simp [WriteEvent.isSteady] at hs
      · simp [WriteEvent.isSteady] at hs
      · exact ih _ _ hs'

theorem eq_flushed_of_flush {s t : Sink} {outcome : Except String Unit} (h : s.flush = (outcome, t)) :
    t = s.flushed := by
  unfold Sink.flush at h
  split at h <;> cases h <;> rfl

-- Flushing accepts nothing, whether it fails or not.
theorem bytes_flush {s t : Sink} {outcome : Except String Unit} (h : s.flush = (outcome, t)) :
    t.bytes = s.bytes := by
  rw [eq_flushed_of_flush h]
  rfl

theorem Steady.flush_eq {s : Sink} (h : s.Steady) : Sink.flush s = (.ok (), s.flushed) := by
  rw [Sink.flush, h.flushes _ List.mem_cons_self]

theorem Steady.flushed {s : Sink} (h : s.Steady) : s.flushed.Steady where
  script := h.script
  flushes := by
    intro outcome hmem
    rcases s with ⟨sent, script, flushFault, _ | ⟨next, later⟩⟩
    · exact List.mem_singleton.mp hmem
    · -- The outcome of the next flush is now in front of the others.
      have hmem' : outcome ∈ next :: later := hmem
      exact h.flushes outcome (List.mem_cons_of_mem flushFault hmem')

/-! ### Outputs that have not refused -/

/-- What happened on the calls that led from `s` to `t`. -/
def events (s t : Sink) : List WriteEvent :=
  s.script.take (s.script.length - t.script.length)

/-- Between `s` and `t` no call has failed, or accepted nothing. Flushing may have failed. -/
def Unbroken (s t : Sink) : Prop :=
  ∀ event ∈ s.events t, event.isSteady = true

instance (s t : Sink) : Decidable (s.Unbroken t) :=
  inferInstanceAs (Decidable (∀ event ∈ s.events t, event.isSteady = true))

variable {s t u : Sink}

theorem events_eq {used : List WriteEvent} (h : s.script = used ++ t.script) : s.events t = used := by
  rw [events, h, List.length_append, Nat.add_sub_cancel, List.take_left]

theorem events_append (h : t.script <:+ s.script) (h' : u.script <:+ t.script) :
    s.events u = s.events t ++ t.events u := by
  obtain ⟨used, hs⟩ := h
  obtain ⟨used', ht⟩ := h'
  have hu : s.script = (used ++ used') ++ u.script := by rw [← hs, ← ht, List.append_assoc]
  rw [events_eq hu, events_eq hs.symm, events_eq ht.symm]

theorem unbroken_append (h : t.script <:+ s.script) (h' : u.script <:+ t.script) :
    s.Unbroken u ↔ s.Unbroken t ∧ t.Unbroken u := by
  rw [Unbroken, events_append h h']
  exact List.forall_mem_append

-- An output that refuses has come to an event that is not steady.
theorem offerBy_used {bytes : List UInt8} {script : List WriteEvent} {outcome : Except Refusal Unit}
    (h : s.offerBy bytes script = (outcome, t)) :
    ∃ used, script = used ++ t.script ∧ (outcome = .ok () ∨ ∃ event ∈ used, event.isSteady = false) := by
  induction script generalizing s bytes with
  | nil =>
    cases h
    exact ⟨[], rfl, .inl rfl⟩
  | cons event script ih =>
    rw [offerBy.eq_def] at h
    dsimp only at h
    split at h
    · cases h
      exact ⟨[], rfl, .inl rfl⟩
    · split at h
      · obtain ⟨used, hscript, hend⟩ := ih h
        refine ⟨.interrupted :: used, congrArg _ hscript, hend.imp_right ?_⟩
        exact fun ⟨event, hmem, hunsteady⟩ => ⟨event, List.mem_cons_of_mem _ hmem, hunsteady⟩
      · next text =>
        cases h
        exact ⟨[.fault text], rfl, .inr ⟨_, List.mem_singleton_self _, rfl⟩⟩
      · cases h
        exact ⟨[.upTo 0], rfl, .inr ⟨_, List.mem_singleton_self _, rfl⟩⟩
      · next n _ =>
        obtain ⟨used, hscript, hend⟩ := ih h
        refine ⟨.upTo n :: used, congrArg _ hscript, hend.imp_right ?_⟩
        exact fun ⟨event, hmem, hunsteady⟩ => ⟨event, List.mem_cons_of_mem _ hmem, hunsteady⟩

theorem offer_nil (s : Sink) : s.offer [] = (.ok (), s) := by
  rcases s with ⟨sent, _ | ⟨event, script⟩, flushFault, laterFlushes⟩ <;> rfl

theorem offer_script {bytes : List UInt8} {outcome : Except Refusal Unit}
    (h : s.offer bytes = (outcome, t)) : t.script <:+ s.script := by
  obtain ⟨used, hscript, -⟩ := offerBy_used h
  exact ⟨used, hscript.symm⟩

theorem not_unbroken_of_refusal {bytes : List UInt8} {refusal : Refusal}
    (h : s.offer bytes = (.error refusal, t)) : ¬s.Unbroken t := by
  obtain ⟨used, hscript, hend⟩ := offerBy_used h
  rcases hend with hok | ⟨event, hevent, hunsteady⟩
  · cases hok
  · intro hunbroken
    rw [Unbroken, events_eq hscript] at hunbroken
    rw [hunbroken event hevent] at hunsteady
    cases hunsteady

theorem script_flush {outcome : Except String Unit} (h : s.flush = (outcome, t)) : t.script = s.script := by
  rw [eq_flushed_of_flush h]
  rfl

end Sink
end Ipp
