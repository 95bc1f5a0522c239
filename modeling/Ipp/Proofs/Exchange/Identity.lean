import Ipp.Proofs.Exchange.Classifying
import Ipp.Proofs.Exchange.Settling

/-!
# Who a request acts for

A request may state a user. Where the transport has authenticated one, all that counts of the statement is
whether it names another user (`Disputes`): the request then acts for nobody. No text of it ever gets into
the identity, and two requests from one peer that both dispute its user, or neither, have the same
(`identity_uninfluenced`).
-/

namespace Ipp

open Calls

namespace Exchange

/-- The exchange, with what the transport says about its peer. -/
def attested (e : Exchange) (remoteUser remoteAddr : Option String) : Exchange :=
  { e with remoteUser, remoteAddr }

/-- The identity of a user, whose address may be unknown. -/
def located (user : String) (addr : Option String) : String :=
  user ++ "@" ++ addr.getD "?"

theorem located_inj {user user' : String} {addr : Option String} :
    located user addr = located user' addr ↔ user = user' := by
  unfold located
  rw [String.append_left_inj, String.append_left_inj]

/-- The request states a user other than `remote`: the first attribute that could state one has a single
value, and that is another text. -/
def Disputes (e : Exchange) (remote : String) : Prop :=
  ∃ before a after text, FirstOf (·.isFor .operation .name userName) e.request before a after ∧
    a.values = [.string text] ∧ text ≠ remote

/-! ## The user that is stated -/

/-- The user that the request states, as a claim sees it. -/
def statedUser? (e : Exchange) : Option String :=
  (claimString .operation .name userName e).1

theorem statedUser?_eq (e : Exchange) :
    e.statedUser? = (e.find? .operation .name userName).bind (·.only?.bind Value.string?) :=
  (claimValue_takes .operation .name userName e Value.string?).1

theorem statedUser?_eq_some {e : Exchange} {text : String} :
    e.statedUser? = some text ↔ ∃ before a after,
      FirstOf (·.isFor .operation .name userName) e.request before a after ∧
        a.values = [.string text] := by
  rw [statedUser?_eq, Option.bind_eq_some_iff]
  constructor
  · rintro ⟨a, ha, htext⟩
    obtain ⟨before, after, hfirst⟩ := find?_eq_some_iff_firstOf.mp ha
    obtain ⟨v, hv, hstring⟩ := Option.bind_eq_some_iff.mp htext
    cases Value.string?_eq_some.mp hstring
    exact ⟨before, a, after, hfirst, Attribute.only?_eq_some.mp hv⟩
  · rintro ⟨before, a, after, hfirst, hvalues⟩
    refine ⟨a, find?_eq_some_iff_firstOf.mpr ⟨before, after, hfirst⟩, ?_⟩
    rw [Attribute.only?_eq_some.mpr hvalues]
    rfl

theorem disputes_iff {e : Exchange} {remote : String} :
    e.Disputes remote ↔ ∃ text, e.statedUser? = some text ∧ text ≠ remote := by
  constructor
  · rintro ⟨before, a, after, text, hfirst, hvalues, hother⟩
    exact ⟨text, statedUser?_eq_some.mpr ⟨before, a, after, hfirst, hvalues⟩, hother⟩
  · rintro ⟨text, hstated, hother⟩
    obtain ⟨before, a, after, hfirst, hvalues⟩ := statedUser?_eq_some.mp hstated
    exact ⟨before, a, after, text, hfirst, hvalues, hother⟩

variable (authenticated : Bool) (e : Exchange) (remoteUser remoteAddr : Option String)

/-- The identity is made of the user that is stated and of what the transport says. -/
theorem fst_claimIdentity : (claimIdentity authenticated e).1 =
    located (actingUser authenticated e.statedUser? e.remoteUser) e.remoteAddr := by
  have hrest := (claimValue_takes .operation .name userName e Value.string?).2.rest
  have huser : (claimString .operation .name userName e).2.remoteUser = e.remoteUser := by
    rw [claimString, hrest]
  have haddr : (claimString .operation .name userName e).2.remoteAddr = e.remoteAddr := by
    rw [claimString, hrest]
  rw [← huser, ← haddr, statedUser?, claimIdentity]
  simp only [userName]
  rcases claimString .operation .name "requesting-user-name" e with ⟨stated, e'⟩
  dsimp only
  -- Reporting that the two disagree changes neither.
  split
  · split <;> rfl
  · rfl

theorem claimIdentity_attested :
    (claimIdentity authenticated (e.attested remoteUser remoteAddr)).1 =
      located (actingUser authenticated e.statedUser? remoteUser) remoteAddr := by
  have hstated : (e.attested remoteUser remoteAddr).statedUser? = e.statedUser? := by
    rw [statedUser?_eq, statedUser?_eq]
    rfl
  rw [fst_claimIdentity, hstated]
  rfl

/-! ## Acting users -/

theorem actingUser_unauthenticated (stated : Option String) :
    actingUser true stated none = "nobody-unauthenticated" := by
  cases stated <;> rfl

theorem actingUser_disputed {stated remote : String} (h : stated ≠ remote) :
    actingUser authenticated (some stated) (some remote) = "nobody-inconsistent" :=
  if_pos h

-- Without authentication being asked for, a request that states nobody acts for nobody.
theorem actingUser_undisputed {stated : Option String} {remote : String}
    (h : ∀ text, stated = some text → text = remote) :
    actingUser authenticated stated (some remote) =
      if authenticated then remote else stated.elim "nobody" fun _ => remote := by
  cases stated with
  | none => cases authenticated <;> rfl
  | some text =>
    cases h text rfl
    rw [actingUser, if_neg (not_not_intro rfl), Option.elim_some]

variable {authenticated e remoteAddr} {remote : String}

theorem claimIdentity_of_disputes (h : e.Disputes remote) :
    (claimIdentity authenticated (e.attested (some remote) remoteAddr)).1 =
      located "nobody-inconsistent" remoteAddr := by
  obtain ⟨text, hstated, hother⟩ := disputes_iff.mp h
  rw [claimIdentity_attested, hstated, actingUser_disputed authenticated hother]

theorem claimIdentity_of_not_disputes (h : ¬e.Disputes remote) :
    (claimIdentity authenticated (e.attested (some remote) remoteAddr)).1 =
      located (if authenticated then remote else e.statedUser?.elim "nobody" fun _ => remote)
        remoteAddr := by
  have hagreed : ∀ text, e.statedUser? = some text → text = remote := fun text hstated =>
    by_contra fun hother => h (disputes_iff.mpr ⟨text, hstated, hother⟩)
  rw [claimIdentity_attested, actingUser_undisputed authenticated hagreed]

/-! ## Identities -/

/-- What is said of the user behind a request whose peer the transport knows as `remoteUser` and
`remoteAddr`. -/
structure Identified (e : Exchange) (remoteUser remoteAddr : Option String) : Prop where
  unauthenticated : remoteUser = none →
    (claimIdentity true (e.attested remoteUser remoteAddr)).1 = located "nobody-unauthenticated" remoteAddr
  authenticated : ∀ remote, remoteUser = some remote →
    (claimIdentity true (e.attested remoteUser remoteAddr)).1 = located remote remoteAddr ∨
      (claimIdentity true (e.attested remoteUser remoteAddr)).1 = located "nobody-inconsistent" remoteAddr
  inconsistent : ∀ remote, remoteUser = some remote → remote ≠ "nobody-inconsistent" →
    ((claimIdentity true (e.attested remoteUser remoteAddr)).1 = located "nobody-inconsistent" remoteAddr ↔
      e.Disputes remote)
  -- Where authentication is not asked for, a dispute counts all the same.
  disputed : ∀ remote, remoteUser = some remote → e.Disputes remote →
    (claimIdentity false (e.attested remoteUser remoteAddr)).1 = located "nobody-inconsistent" remoteAddr
  -- No request acts for another user than the one that was authenticated.
  nobodyElse : ∀ remote, remoteUser = some remote → ∀ required,
    (claimIdentity required (e.attested remoteUser remoteAddr)).1 ∈
      ["nobody-inconsistent", "nobody", remote].map (located · remoteAddr)

theorem identified (e : Exchange) (remoteUser remoteAddr : Option String) :
    e.Identified remoteUser remoteAddr where
  unauthenticated := by
    rintro rfl
    rw [claimIdentity_attested, actingUser_unauthenticated]
  authenticated := by
    rintro remote rfl
    by_cases h : e.Disputes remote
    · exact .inr (claimIdentity_of_disputes h)
    · exact .inl (claimIdentity_of_not_disputes h)
  inconsistent := by
    rintro remote rfl hname
    refine ⟨fun hsaid => ?_, claimIdentity_of_disputes⟩
    by_contra h
    rw [claimIdentity_of_not_disputes h, located_inj] at hsaid
    exact hname hsaid
  disputed := by
    rintro remote rfl h
    exact claimIdentity_of_disputes h
  nobodyElse := by
    rintro remote rfl required
    by_cases h : e.Disputes remote
    · rw [claimIdentity_of_disputes h]
      simp
    · rw [claimIdentity_of_not_disputes h]
      cases required <;> cases e.statedUser? <;> simp

/-- Of two requests from one peer each is identified by what the transport says, and as nobody where it
contradicts that; where both do or neither does, nothing tells them apart. -/
theorem identity_uninfluenced (e e' : Exchange) (remoteUser remoteAddr : Option String) :
    e.Identified remoteUser remoteAddr ∧ e'.Identified remoteUser remoteAddr ∧
      ((∀ remote, remoteUser = some remote → (e.Disputes remote ↔ e'.Disputes remote)) →
        (claimIdentity true (e.attested remoteUser remoteAddr)).1 =
          (claimIdentity true (e'.attested remoteUser remoteAddr)).1) := by
  refine ⟨identified e remoteUser remoteAddr, identified e' remoteUser remoteAddr, fun hsame => ?_⟩
  cases remoteUser with
  | none => rw [(identified e none remoteAddr).unauthenticated rfl,
      (identified e' none remoteAddr).unauthenticated rfl]
  | some remote =>
    have hboth := hsame remote rfl
    by_cases h : e.Disputes remote
    · rw [claimIdentity_of_disputes h, claimIdentity_of_disputes (hboth.mp h)]
    · rw [claimIdentity_of_not_disputes h, claimIdentity_of_not_disputes (mt hboth.mpr h)]
      rfl

/-- A request that states these users. -/
def stating (users : List String) : RequestForm :=
  { header := { major := 1, minor := 1, operation := 10, requestId := 3 }
    groups :=
      [⟨.operation, users.map fun user => ⟨.name, Text.utf8 userName, Text.utf8 user, []⟩⟩] }

def statingStart (users : List String) : Exchange :=
  final (Exchange.parse (.opened {} { rest := (stating users).bytes } {} none))

-- To agree with the transport is to state nobody, and what is stated in second place does not count.
theorem stating_uninfluenced :
    (claimIdentity true ((statingStart ["jane", "bob"]).attested (some "jane") (some "192.0.2.7"))).1 =
      (claimIdentity true ((statingStart []).attested (some "jane") (some "192.0.2.7"))).1 ∧
    (claimIdentity true ((statingStart ["bob", "jane"]).attested (some "jane") (some "192.0.2.7"))).1 =
      "nobody-inconsistent@192.0.2.7" := by
  have hagreed : ¬(statingStart ["jane", "bob"]).Disputes "jane" := by
    rw [disputes_iff]
    rintro ⟨text, hstated, hother⟩
    have hjane : (statingStart ["jane", "bob"]).statedUser? = some "jane" := by decide +kernel
    exact hother (Option.some.inj (hstated.symm.trans hjane))
  have hsilent : ¬(statingStart []).Disputes "jane" := by
    rw [disputes_iff]
    rintro ⟨text, hstated, -⟩
    have hnobody : (statingStart []).statedUser? = none := by decide +kernel
    cases hstated.symm.trans hnobody
  have hdisputed : (statingStart ["bob", "jane"]).Disputes "jane" :=
    disputes_iff.mpr ⟨"bob", by decide +kernel, by decide⟩
  obtain ⟨-, -, hsame⟩ := identity_uninfluenced (statingStart ["jane", "bob"]) (statingStart [])
    (some "jane") (some "192.0.2.7")
  refine ⟨hsame fun remote hremote => ?_, ?_⟩
  · cases hremote
    exact iff_of_false hagreed hsilent
  · rw [claimIdentity_of_disputes hdisputed]
    decide

end Exchange
end Ipp
