/-!
# Calls in sequence

A call takes a state to an answer or a fault, and keeps the state it has reached either way. Here is how
one call behind another is taken apart, what a sequence keeps of the state it started from, in which states
it ends, and when two runs of it from related states end alike, or do so unless one of them breaks off.
-/

namespace Ipp.Calls

variable {ε σ α β : Type}

/-! ## One call behind another -/

theorem bind_of_ok {x : EStateM ε σ α} {s s' : σ} {a : α} (h : x s = .ok a s')
    (f : α → EStateM ε σ β) : (x >>= f) s = f a s' := by
  show (match x s with | .ok a s => f a s | .error e s => .error e s) = f a s'
  rw [h]

theorem bind_of_error {x : EStateM ε σ α} {s s' : σ} {e : ε} (h : x s = .error e s')
    (f : α → EStateM ε σ β) : (x >>= f) s = .error e s' := by
  show (match x s with | .ok a s => f a s | .error e s => .error e s) = .error e s'
  rw [h]

theorem bind_eq_ok {x : EStateM ε σ α} {f : α → EStateM ε σ β} {s s' : σ} {b : β} :
    (x >>= f) s = .ok b s' ↔ ∃ a t, x s = .ok a t ∧ f a t = .ok b s' := by
  constructor
  · intro h
    cases hx : x s with
    | ok a t => exact ⟨a, t, rfl, by rwa [bind_of_ok hx] at h⟩
    | error e t => rw [bind_of_error hx] at h; cases h
  · rintro ⟨a, t, hx, hf⟩
    rw [bind_of_ok hx, hf]

-- What follows sees only how the first call has ended.
theorem bind_congr_start {x : EStateM ε σ α} {s t : σ} (h : x s = x t) (f : α → EStateM ε σ β) :
    (x >>= f) s = (x >>= f) t := by
  cases ht : x t with
  | ok a u => rw [bind_of_ok (h.trans ht), bind_of_ok ht]
  | error e u => rw [bind_of_error (h.trans ht), bind_of_error ht]

theorem get_bind (f : σ → EStateM ε σ β) (s : σ) : (get >>= f) s = f s s :=
  rfl

/-- The state that a call has reached. -/
def final : EStateM.Result ε σ α → σ
  | .ok _ s => s
  | .error _ s => s

/-- Whether a call has succeeded. -/
def succeeded : EStateM.Result ε σ α → Bool
  | .ok _ _ => true
  | .error _ _ => false

/-- The fault of a call that has failed. -/
def fault? : EStateM.Result ε σ α → Option ε
  | .ok _ _ => none
  | .error e _ => some e

theorem eq_ok_of_succeeded {r : EStateM.Result ε σ Unit} (h : succeeded r = true) :
    r = .ok () (final r) := by
  cases r with
  | ok a s => rfl
  | error e s => cases h

theorem eq_error_of_fault? {r : EStateM.Result ε σ α} {e : ε} (h : fault? r = some e) :
    r = .error e (final r) := by
  cases r with
  | ok a s => cases h
  | error e' s =>
    cases h
    rfl

/-! ## What a call keeps -/

/-- The state after the call, whether it failed or not, stands in the relation `R` to the state before. -/
def Keeps (R : σ → σ → Prop) (x : EStateM ε σ α) : Prop :=
  ∀ s, R s (final (x s))

section Keeps

variable {R : σ → σ → Prop} {x : EStateM ε σ α} {f : α → EStateM ε σ β}

theorem Keeps.ok (h : Keeps R x) {s s' : σ} {a : α} (hx : x s = .ok a s') : R s s' := by
  have := h s
  rwa [hx] at this

theorem Keeps.error (h : Keeps R x) {s s' : σ} {e : ε} (hx : x s = .error e s') : R s s' := by
  have := h s
  rwa [hx] at this

theorem keeps_of_cases (hok : ∀ {s s' a}, x s = .ok a s' → R s s')
    (herror : ∀ {s s' e}, x s = .error e s' → R s s') : Keeps R x := by
  intro s
  cases hx : x s with
  | ok a s' => exact hok hx
  | error e s' => exact herror hx

theorem keeps_pure (hr : ∀ s, R s s) (a : α) : Keeps R (pure a : EStateM ε σ α) :=
  fun s => hr s

theorem keeps_throw (hr : ∀ s, R s s) (e : ε) : Keeps R (throw e : EStateM ε σ α) :=
  fun s => hr s

theorem keeps_modify {g : σ → σ} (h : ∀ s, R s (g s)) :
    Keeps R (modify g : EStateM ε σ PUnit) :=
  fun s => h s

theorem Keeps.bind (ht : ∀ {a b c}, R a b → R b c → R a c) (hx : Keeps R x)
    (hf : ∀ a, Keeps R (f a)) : Keeps R (x >>= f) := by
  intro s
  cases h : x s with
  | ok a s' => rw [bind_of_ok h]; exact ht (hx.ok h) (hf a s')
  | error e s' => rw [bind_of_error h]; exact hx.error h

-- Looking at the state changes nothing.
theorem keeps_get_bind {g : σ → EStateM ε σ β} (h : ∀ t, Keeps R (g t)) : Keeps R (get >>= g) :=
  fun s => h s s

theorem keeps_ite {p : Prop} [Decidable p] {y : EStateM ε σ α} (hx : Keeps R x) (hy : Keeps R y) :
    Keeps R (if p then x else y) := by
  split
  · exact hx
  · exact hy

/-- When the call fails, the state after it stands in the relation `R` to the state before. -/
def FailsIn (R : σ → σ → Prop) (x : EStateM ε σ α) : Prop :=
  ∀ s s' e, x s = .error e s' → R s s'

-- A call in front of one that fails has to be known only where it succeeds.
theorem Keeps.bind_failsIn (ht : ∀ {a b c}, R a b → R b c → R a c) (hx : Keeps R x)
    (hf : ∀ a, FailsIn R (f a)) : FailsIn R (x >>= f) := by
  intro s s' e h
  cases hs : x s with
  | ok a t => rw [bind_of_ok hs] at h; exact ht (hx.ok hs) (hf a t s' e h)
  | error e' t => rw [bind_of_error hs] at h; cases h; exact hx.error hs

-- What follows and cannot fail makes no difference.
theorem FailsIn.bind_pure (hx : FailsIn R x) (b : β) : FailsIn R (do let _ ← x; pure b) := by
  intro s s' e h
  cases hs : x s with
  | ok a t => rw [bind_of_ok hs] at h; cases h
  | error e' t => rw [bind_of_error hs] at h; cases h; exact hx _ _ _ hs

end Keeps

/-! ## How a call ends -/

/-- From a state with `P` the call succeeds with an answer and a state for which `Q` holds, or fails with a
fault and a state for which `E` holds. -/
def Ends (P : σ → Prop) (x : EStateM ε σ α) (Q : α → σ → Prop) (E : ε → σ → Prop) : Prop :=
  ∀ s, P s → match x s with
    | .ok a t => Q a t
    | .error e t => E e t

section Ends

variable {P : σ → Prop} {Q : α → σ → Prop} {Q' : β → σ → Prop} {E : ε → σ → Prop}
  {x : EStateM ε σ α} {f : α → EStateM ε σ β}

theorem Ends.ok (h : Ends P x Q E) {s t : σ} {a : α} (hs : P s) (hx : x s = .ok a t) : Q a t := by
  have := h s hs
  rwa [hx] at this

theorem Ends.error (h : Ends P x Q E) {s t : σ} {e : ε} (hs : P s) (hx : x s = .error e t) : E e t := by
  have := h s hs
  rwa [hx] at this

theorem ends_of_cases (hok : ∀ {s a t}, P s → x s = .ok a t → Q a t)
    (herror : ∀ {s e t}, P s → x s = .error e t → E e t) : Ends P x Q E := by
  intro s hs
  cases hx : x s with
  | ok a t => exact hok hs hx
  | error e t => exact herror hs hx

-- What holds of every state holds of those with `P`.
theorem Ends.weaken (h : Ends (fun _ => True) x Q E) : Ends P x Q E :=
  fun s _ => h s trivial

theorem ends_pure {a : α} (h : ∀ s, P s → Q a s) : Ends P (pure a) Q E :=
  h

theorem ends_throw {e : ε} (h : ∀ s, P s → E e s) : Ends P (throw e : EStateM ε σ α) Q E :=
  h

-- What follows starts where the first call ends well.
theorem Ends.bind (hx : Ends P x Q E) (hf : ∀ a, Ends (Q a) (f a) Q' E) : Ends P (x >>= f) Q' E := by
  intro s hs
  cases h : x s with
  | ok a t => rw [bind_of_ok h]; exact hf a t (hx.ok hs h)
  | error e t => rw [bind_of_error h]; exact hx.error hs h

theorem ends_get_bind {g : σ → EStateM ε σ β} (h : ∀ t, P t → Ends P (g t) Q' E) :
    Ends P (get >>= g) Q' E :=
  fun s hs => h s hs s hs

theorem ends_ite {p : Prop} [Decidable p] {y : EStateM ε σ α} (hx : Ends P x Q E)
    (hy : Ends P y Q E) : Ends P (if p then x else y) Q E := by
  split
  · exact hx
  · exact hy

end Ends

/-! ## Two runs -/

/-- Both ends give the same answer or the same fault, in related states. -/
inductive SameEnd (R : σ → σ → Prop) : EStateM.Result ε σ α → EStateM.Result ε σ α → Prop
  | ok {a : α} {s t : σ} : R s t → SameEnd R (.ok a s) (.ok a t)
  | error {e : ε} {s t : σ} : R s t → SameEnd R (.error e s) (.error e t)

/-- From related states the two calls end alike. -/
def Agree (R : σ → σ → Prop) (x y : EStateM ε σ α) : Prop :=
  ∀ s t, R s t → SameEnd R (x s) (y t)

section Agree

variable {R : σ → σ → Prop} {x y : EStateM ε σ α} {f g : α → EStateM ε σ β}

theorem agree_pure (a : α) : Agree R (pure a : EStateM ε σ α) (pure a) :=
  fun _ _ h => .ok h

theorem agree_throw (e : ε) : Agree R (throw e : EStateM ε σ α) (throw e) :=
  fun _ _ h => .error h

theorem agree_modify {u v : σ → σ} (h : ∀ s t, R s t → R (u s) (v t)) :
    Agree R (modify u : EStateM ε σ PUnit) (modify v) :=
  fun s t hst => .ok (h s t hst)

theorem agree_modifyGet {u v : σ → α × σ} (h : ∀ s t, R s t → (u s).1 = (v t).1 ∧ R (u s).2 (v t).2) :
    Agree R (modifyGet u : EStateM ε σ α) (modifyGet v) := by
  intro s t hst
  obtain ⟨hanswer, hstate⟩ := h s t hst
  show SameEnd R (.ok (u s).1 (u s).2) (.ok (v t).1 (v t).2)
  rw [hanswer]
  exact .ok hstate

-- What two calls end alike with can be continued alike.
theorem SameEnd.bind {s t : σ} (hx : SameEnd R (x s) (y t)) (hf : ∀ a, Agree R (f a) (g a)) :
    SameEnd R ((x >>= f) s) ((y >>= g) t) := by
  generalize hs : x s = p at hx
  generalize ht : y t = q at hx
  cases hx with
  | ok h => rw [bind_of_ok hs, bind_of_ok ht]; exact hf _ _ _ h
  | error h => rw [bind_of_error hs, bind_of_error ht]; exact .error h

theorem Agree.bind (hx : Agree R x y) (hf : ∀ a, Agree R (f a) (g a)) :
    Agree R (x >>= f) (y >>= g) :=
  fun s t hst => (hx s t hst).bind hf

-- What is seen of the states must be used alike.
theorem agree_get_bind {u v : σ → EStateM ε σ β} (h : ∀ s t, R s t → Agree R (u s) (v t)) :
    Agree R (get >>= u) (get >>= v) :=
  fun s t hst => h s t hst s t hst

theorem agree_ite {p : Prop} [Decidable p] {x' y' : EStateM ε σ α} (h : Agree R x y)
    (h' : Agree R x' y') : Agree R (if p then x else x') (if p then y else y') := by
  split
  · exact h
  · exact h'

end Agree

/-- Where `y` succeeds, `x` succeeds from a related state, with the same answer and in a related state, or
it fails with `fault`. -/
def FollowsUnless (R : σ → σ → Prop) (fault : ε) (x y : EStateM ε σ α) : Prop :=
  ∀ s t, R s t → ∀ a t', y t = .ok a t' →
    (∃ s', x s = .ok a s' ∧ R s' t') ∨ ∃ s', x s = .error fault s'

section FollowsUnless

variable {R : σ → σ → Prop} {fault : ε} {x y : EStateM ε σ α} {f g : α → EStateM ε σ β}

theorem followsUnless_pure (a : α) : FollowsUnless R fault (pure a : EStateM ε σ α) (pure a) := by
  rintro s t hst _ _ ⟨⟩
  exact .inl ⟨s, rfl, hst⟩

-- Nothing is asked where the second call fails.
theorem followsUnless_throw (e : ε) : FollowsUnless R fault x (throw e : EStateM ε σ α) :=
  fun _ _ _ _ _ h => nomatch h

theorem followsUnless_modify {u v : σ → σ} (h : ∀ s t, R s t → R (u s) (v t)) :
    FollowsUnless R fault (modify u : EStateM ε σ PUnit) (modify v) := by
  rintro s t hst _ _ ⟨⟩
  exact .inl ⟨u s, rfl, h s t hst⟩

theorem FollowsUnless.bind (hx : FollowsUnless R fault x y)
    (hf : ∀ a, FollowsUnless R fault (f a) (g a)) : FollowsUnless R fault (x >>= f) (y >>= g) := by
  intro s t hst b t'' h
  obtain ⟨a, t', hy, hg⟩ := bind_eq_ok.mp h
  rcases hx s t hst a t' hy with ⟨s', hs, hst'⟩ | ⟨s', hs⟩
  · rw [bind_of_ok hs]
    exact hf a s' t' hst' b t'' hg
  · exact .inr ⟨s', bind_of_error hs f⟩

theorem followsUnless_get_bind {u v : σ → EStateM ε σ β}
    (h : ∀ s t, R s t → FollowsUnless R fault (u s) (v t)) :
    FollowsUnless R fault (get >>= u) (get >>= v) :=
  fun s t hst => h s t hst s t hst

theorem followsUnless_ite {p : Prop} [Decidable p] {x' y' : EStateM ε σ α}
    (h : FollowsUnless R fault x y) (h' : FollowsUnless R fault x' y') :
    FollowsUnless R fault (if p then x else x') (if p then y else y') := by
  split
  · exact h
  · exact h'

end FollowsUnless

end Ipp.Calls
