import FuchsiaSdk.ProxyController

/-! The failures of `ProxyController::Send`. The error handler is called while the controller is still
bound, and `reader_.Reset()` follows whatever the handler did. -/

namespace FuchsiaSdk.ProxyController

/-- What the error handler does to the controller before it returns. -/
inductive Reaction where
  | nothing
  | destroy
  | bind (channel : Channel) (dispatcher : Dispatcher)

/-- A `Send` that has failed. -/
structure Failure where
  /-- `none` once it is destroyed. -/
  controller : Option Controller
  /-- The channel that the controller was bound to at each call of the error handler. -/
  calls : List (Option Channel)
  /-- The handlers destroyed without a call. -/
  dropped : List HandlerId
  /-- A member was used after the destruction. -/
  touched : Bool := false

namespace Controller

/-- The error handler, if there is one, and then `reader_.Reset()`. A `Bind` of the handler succeeds. -/
def failSend (reaction : Reaction) (controller : Controller) : Failure :=
  let reset (controller : Controller) (calls : List (Option Channel)) : Failure :=
    ⟨some controller.resetReader, calls, controller.resetReader.dropped, false⟩
  if controller.reader.errorHandler.isNone then reset controller []
  else
    let calls := [controller.reader.channel]
    match reaction with
    | .nothing => reset controller calls
    | .destroy => ⟨none, calls, controller.dropped ++ controller.handlers.values, true⟩
    | .bind channel dispatcher =>
      match controller.bind ⟨none, true⟩ (some channel) (some dispatcher) with
      | some bound => reset bound.1 calls
      | none => ⟨none, calls, [], false⟩

/-- `Send` once the txid is chosen, as far as it fails with a call of the error handler. -/
def sendFailure (reaction : Reaction) (controller : Controller) (msg : Message) : Option Failure :=
  let failed := if msg.errorsEnabled then some (controller.failSend reaction) else none
  if msg.hasType && !msg.isValid then failed
  else if !msg.hasType && !msg.hasOnlyHeader then none
  else
    match if controller.reader.channel.isSome then msg.written else .failed with
    | .failed => failed
    | _ => none

private lemma of_sendFailure (failed : sendFailure reaction controller msg = some outcome) :
    outcome = controller.failSend reaction := by
  unfold sendFailure at failed
  grind

end Controller

/-- The outstanding handlers are dropped, a destroyed controller is left alone, and a channel that the
error handler has bound stays bound. -/
def Settles (reaction : Reaction) (controller : Controller) (failure : Failure) : Prop :=
  failure.dropped = controller.dropped ++ controller.handlers.values ∧ failure.touched = false ∧
    ∀ channel dispatcher, reaction = .bind channel dispatcher →
      ∃ later ∈ failure.controller, later.reader.channel = some channel

/-- In addition the error handler is called once, when the failed channel is no longer bound. -/
def SettlesAsError (reaction : Reaction) (controller : Controller) (channel : Channel) (failure : Failure) :
    Prop :=
  (∃ call, failure.calls = [call] ∧ call ≠ some channel) ∧ Settles reaction controller failure

/-- No error handler is called as for other channel errors: it is called once, always with the failed
channel still bound. The rest is as for other errors only if the handler does nothing. -/
theorem send_failure_iff (reaction : Reaction) (controller : Controller) (msg : Message)
    (failure : Failure) (channel : Channel) (bound : controller.reader.channel = some channel)
    (handled : controller.reader.errorHandler.isSome = true)
    (failed : controller.sendFailure reaction msg = some failure) :
    ¬ SettlesAsError reaction controller channel failure ∧ failure.calls = [some channel] ∧
      (Settles reaction controller failure ↔ reaction = .nothing) := by
  have once : failure.calls = [some channel] → ¬ SettlesAsError reaction controller channel failure := by
    rintro called ⟨⟨call, same, unbound⟩, -⟩
    cases called.symm.trans same
    exact unbound rfl
  suffices rest : failure.calls = [some channel] ∧
      (Settles reaction controller failure ↔ reaction = .nothing) from ⟨once rest.1, rest⟩
  rw [Controller.of_sendFailure failed]
  obtain ⟨⟨_, dispatcher, error⟩, _, _, _, _⟩ := controller
  cases bound
  cases error with
  | none => cases handled
  | some error =>
    cases reaction with
    | nothing => exact ⟨rfl, fun _ => rfl, fun _ => ⟨rfl, rfl, nofun⟩⟩
    | destroy => exact ⟨rfl, fun settled => (Bool.false_ne_true settled.2.1.symm).elim, nofun⟩
    | bind channel dispatcher =>
      refine ⟨rfl, fun settled => ?_, nofun⟩
      obtain ⟨_, found, closed⟩ := settled.2.2 channel dispatcher rfl
      cases Option.some.inj found
      cases closed

/-- A message of a type that `Validate` refuses. -/
def refused : Message := ⟨true, false, false, .ok, true⟩

theorem send_failure_nothing : ¬ SettlesAsError .nothing waiting 3 (waiting.failSend .nothing) ∧
    (waiting.failSend .nothing).calls = [some 3] ∧
      (Settles .nothing waiting (waiting.failSend .nothing) ↔ Reaction.nothing = .nothing) :=
  send_failure_iff .nothing waiting refused _ 3 rfl rfl rfl

/-- A channel that the error handler binds is closed again. -/
theorem bound_channel_closed :
    (waiting.failSend (.bind 4 7)).controller.map (·.reader.channel) = some none ∧
      (waiting.failSend .destroy).touched = true :=
  ⟨rfl, rfl⟩

end FuchsiaSdk.ProxyController
