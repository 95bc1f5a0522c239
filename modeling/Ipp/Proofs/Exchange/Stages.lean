import Ipp.Proofs.Exchange.Sifting
import Ipp.Proofs.Reply.Builder

/-!
# The stages of serving

What reading and checking a request keeps, and how the answer comes down to sending a reply.
-/

namespace Ipp.Exchange

open Calls

/-- What reading and working keep is kept while the request is read and checked. -/
theorem keeps_prepare {P : Exchange → Prop} (hparses : ∀ {e e' : Exchange}, e.Parses e' → P e → P e')
    (hworks : ∀ {e e' : Exchange}, e.Works e' → P e → P e') : Keeps (fun e e' => P e → P e') prepare := by
  have hbind : ∀ {α β : Type} {x : Action α} {f : α → Action β}, Keeps (fun e e' => P e → P e') x →
      (∀ a, Keeps (fun e e' => P e → P e') (f a)) → Keeps (fun e e' => P e → P e') (x >>= f) :=
    fun hx hf => hx.bind (fun h h' => h' ∘ h) hf
  have hparse : Keeps (fun e e' => P e → P e') parse := fun e => hparses (keeps_parse e)
  have hcheck : Keeps (fun e e' => P e → P e') (modifyGet precheck : Action (Option Status)) :=
    fun e => hworks (precheck_sifts e).works
  have hlast : Keeps (fun e e' => P e → P e') (do
      queueing Queue.addStandard
      return decide ((← get).status = Status.ok)) :=
    hbind (fun e => hworks (keepsWorks_queueing _ e)) fun _ => keeps_get_bind fun e =>
      keeps_pure (fun _ => id) _
  refine hbind hparse fun _ => hbind hcheck fun failed => ?_
  cases failed with
  | none => exact hlast
  | some status =>
    exact hbind (keeps_modify fun e => hworks ⟨.refl _, .refl _, rfl, rfl, rfl, rfl⟩) fun _ => hlast

/-! ## Answering -/

/-- The exchange with the text that goes with its status queued, if there is one. -/
def worded (e : Exchange) : Exchange :=
  match statusMessage? e.status with
  | some text => { e with queue := e.queue.insert (.ofText .text "status-message" text) }
  | none => e

theorem worded_works (e : Exchange) : e.Works e.worded := by
  unfold worded
  cases statusMessage? e.status with
  | some text => exact ⟨.refl _, .refl _, rfl, rfl, rfl, rfl⟩
  | none => exact .refl e

/-- An answer is a reply from the exchange with that text. -/
theorem answer_eq (emitHeader : Bool) (e : Exchange) :
    answer emitHeader e =
      match sendReply emitHeader e.worded with
      | .ok () e' => .ok e'.status e'
      | .error fault e' => .error fault e' := by
  have hsend : ∀ e' : Exchange, (do
      sendReply emitHeader
      return (← get).status : Action Status) e' =
        match sendReply emitHeader e' with
        | .ok () e'' => .ok e''.status e''
        | .error fault e'' => .error fault e'' := by
    intro e'
    cases hs : sendReply emitHeader e' with
    | ok a e'' => exact bind_of_ok hs _
    | error fault e'' => exact bind_of_error hs _
  unfold answer worded
  rw [get_bind]
  cases statusMessage? e.status with
  | none => exact hsend e
  | some text =>
    have hqueued : queueing (Queue.addString .operation .text "status-message" text) e =
        .ok () { e with queue := e.queue.insert (.ofText .text "status-message" text) } := rfl
    exact (bind_of_ok hqueued _).trans (hsend _)

end Ipp.Exchange
