import FuchsiaSdk.ClientTxids
import FuchsiaSdk.SortedMap
import Mathlib.Order.Nat

/-! Moving a `ProxyController` (`fidl/cpp/internal/proxy_controller.cc`) with the
`MessageReader` inside it (`message_reader.cc`). The reader calls back into the controller
when its channel goes, and the controller then drops the handlers of its calls. -/
namespace FuchsiaSdk.ProxyController
open Machine Option

abbrev Channel := Nat

abbrev Dispatcher := Nat

abbrev HandlerId := Nat

/-- The fields of `MessageReader` that its binding sets. -/
structure Reader where
  channel : Option Channel := none
  dispatcher : Option Dispatcher := none
  errorHandler : Option HandlerId := none
  deriving DecidableEq, Repr

structure Controller where
  reader : Reader := {}
  /-- `proxy_` is not null. -/
  hasProxy : Bool := false
  handlers : SortedMap Nat HandlerId := .empty
  nextTxid : Nat := 1
  /-- The handlers that this controller has destroyed without a call. -/
  dropped : List HandlerId := []

/-- What the environment decides for a `Bind`. -/
structure Environment where
  /-- `async_get_default_dispatcher`. -/
  defaultDispatcher : Option Dispatcher
  /-- `async_begin_wait` succeeds. -/
  waitBegins : Bool

namespace Controller

/-- `ClearPendingHandlers`, which is all that `OnChannelGone` does. -/
def clearPendingHandlers (controller : Controller) : Controller :=
  { controller with
    handlers := .empty, nextTxid := 1, dropped := controller.dropped ++ controller.handlers.values }

/-- `MessageReader::Unbind`, and the channel it returns. -/
def unbind (controller : Controller) : Controller × Option Channel :=
  match controller.reader.channel with
  | none => (controller, none)
  | some channel =>
    ({ controller with
      reader := { controller.reader with channel := none, dispatcher := none } }.clearPendingHandlers,
      some channel)

/-- `MessageReader::Bind`, and whether its status is `ZX_OK`; `none` where there is no
dispatcher to bind to. -/
def bind (environment : Environment) (controller : Controller) (channel : Option Channel)
    (dispatcher : Option Dispatcher) : Option (Controller × Bool) :=
  let controller := controller.unbind.1
  match channel with
  | none => some (controller, true)
  | some channel =>
    match dispatcher <|> environment.defaultDispatcher with
    | none => none
    | some dispatcher =>
      let controller := { controller with
        reader := { controller.reader with channel := some channel, dispatcher := some dispatcher } }
      if environment.waitBegins then some (controller, true)
      else some (controller.unbind.1, false)

/-- `MessageReader::Reset`. -/
def resetReader (controller : Controller) : Controller :=
  let controller := controller.unbind.1
  { controller with reader := { controller.reader with errorHandler := none } }

/-- `ProxyController::Reset`. -/
def reset (controller : Controller) : Controller := controller.resetReader.clearPendingHandlers

end Controller

/-- Which of the arguments of `Bind(other->Unbind(), other->dispatcher_)` is evaluated first. -/
inductive Order where
  | dispatcherFirst
  | channelFirst
  deriving DecidableEq, Repr

/-- The dispatcher that is passed to `Bind`, read before or after `Unbind`. -/
def Order.dispatcher (before after : Controller) : Order → Option Dispatcher
  | .dispatcherFirst => before.reader.dispatcher
  | .channelFirst => after.reader.dispatcher

/-- `TakeChannelAndErrorHandlerFrom`. -/
def takeChannelAndErrorHandlerFrom (environment : Environment) (order : Order) (target other : Controller) :
    Option (Controller × Controller) :=
  let unbound := other.unbind
  (target.bind environment unbound.2 (order.dispatcher other unbound.1)).map fun bound =>
    if bound.2 then
      ({ bound.1 with reader := { bound.1.reader with errorHandler := unbound.1.reader.errorHandler } },
        { unbound.1 with reader := { unbound.1.reader with errorHandler := none } })
    else (bound.1, unbound.1)

inductive Move where
  | construct
  | assign
  deriving DecidableEq, Repr

/-- The move constructor. The map that is moved from is left empty. -/
def moveConstruct (environment : Environment) (order : Order) (other : Controller) :
    Option (Controller × Controller) :=
  let target : Controller := { handlers := other.handlers, nextTxid := other.nextTxid }
  (takeChannelAndErrorHandlerFrom environment order target { other with handlers := .empty }).map
    fun moved => (moved.1, moved.2.reset)

/-- The move assignment. -/
def moveAssign (environment : Environment) (order : Order) (target other : Controller) :
    Option (Controller × Controller) :=
  (takeChannelAndErrorHandlerFrom environment order target other).map fun moved =>
    ({ moved.1 with
        handlers := moved.2.handlers, nextTxid := moved.2.nextTxid
        dropped := moved.1.dropped ++ moved.1.handlers.values },
      { moved.2 with handlers := .empty }.reset)

/-- The target, which is a new object for a construction, and `other` after the move. -/
def Move.run (environment : Environment) (order : Order) (target other : Controller) :
    Move → Option (Controller × Controller)
  | .construct => moveConstruct environment order other
  | .assign => moveAssign environment order target other

/-! ## Calls after the move -/

/-- The loop in `Send`: the next value of `next_txid_` whose masked value is neither zero nor
a key of the map. After `2 ^ 31` rounds all values have been tried. -/
def pickTxid (handlers : List (Nat × HandlerId)) : (fuel next : Nat) → Option (Nat × Nat)
  | 0, _ => none
  | fuel + 1, next =>
    let txid := next &&& ClientBase.kUserspaceTxidMask
    let next := (next + 1) % 2 ^ 32
    if txid = 0 ∨ handlers.any (fun entry => entry.1 == txid) then pickTxid handlers fuel next
    else some (next, txid)

inductive Written where
  | ok
  | peerClosed
  | failed
  deriving DecidableEq, Repr

/-- What `Send` finds out about a message. -/
structure Message where
  /-- `type` is not null. -/
  hasType : Bool
  /-- `Validate` returns `ZX_OK`. -/
  isValid : Bool
  hasOnlyHeader : Bool
  written : Written
  /-- `transitory_clientside_error_disable_count` is zero. -/
  errorsEnabled : Bool
  deriving DecidableEq, Repr

namespace Controller

/-- What `Send` does once the txid is chosen, and whether the message was written. There is
no writing without a channel. -/
def transmit (controller : Controller) (msg : Message) : Controller × Bool :=
  let failed := if msg.errorsEnabled then controller.resetReader else controller
  if msg.hasType && !msg.isValid then (failed, false)
  else if !msg.hasType && !msg.hasOnlyHeader then (controller, false)
  else
    match if controller.reader.channel.isSome then msg.written else .failed with
    | .ok => (controller, true)
    | .peerClosed => (controller, false)
    | .failed => (failed, false)

/-- `Send`, with the txid of the call if the message was written with one; `none` if the
search for a txid does not end. -/
def send (controller : Controller) (handler : Option HandlerId) (msg : Message) :
    Option (Controller × Option Nat) :=
  match handler with
  | none => some ((controller.transmit msg).1, none)
  | some handler =>
    (pickTxid controller.handlers.entries (2 ^ 31) controller.nextTxid).map fun (next, txid) =>
      let sent := { controller with nextTxid := next }.transmit msg
      if sent.2 then ({ sent.1 with handlers := sent.1.handlers.emplace txid handler }, some txid)
      else ({ sent.1 with dropped := sent.1.dropped ++ [handler] }, none)

/-- `OnMessage`, and whether its status is `ZX_OK`. -/
def onMessage (controller : Controller) (txid : Nat) (handled : Bool) : Controller × Bool :=
  if txid = 0 then (controller, controller.hasProxy && handled)
  else
    match controller.handlers.find? txid with
    | none => (controller, false)
    | some _ => ({ controller with handlers := controller.handlers.erase txid }, handled)

/-- The part of `ReadAndDispatchMessage` around `OnMessage`: an error unbinds the reader. -/
def dispatch (controller : Controller) (txid : Nat) (handled : Bool) : Controller :=
  let result := controller.onMessage txid handled
  if result.2 then result.1 else result.1.unbind.1

end Controller

/-- A controller, with the txids of the calls in flight on the channel it was bound to. -/
structure Session where
  controller : Controller
  inFlight : List Nat

inductive Operation where
  | send (handler : Option HandlerId) (msg : Message)
  /-- A message arrives; `handled` is what its handler makes of it. -/
  | receive (txid : Nat) (handled : Bool)
  deriving DecidableEq, Repr

def perform (session : Session) : Operation → Option Session
  | .send handler msg => (session.controller.send handler msg).map fun sent =>
      ⟨sent.1, session.inFlight ++ sent.2.toList⟩
  | .receive txid handled =>
    if session.controller.reader.channel.isNone then none
    else some ⟨session.controller.dispatch txid handled, session.inFlight.filter (· ≠ txid)⟩

/-- The txid that a `Send` picks. -/
def picked (session : Session) : Operation → Option Nat
  | .send (some _) _ =>
    (pickTxid session.controller.handlers.entries (2 ^ 31) session.controller.nextTxid).map Prod.snd
  | _ => none

/-- A txid that is picked for the channel is not in flight on it. -/
def PicksFresh (channel : Channel) (session : Session) (operation : Operation) : Prop :=
  ∀ txid, picked session operation = some txid → session.controller.reader.channel = some channel →
    txid ∉ session.inFlight

/-- What a move is asked to do: the target takes over the binding and the calls of `other`,
only handlers of its own are dropped, and later calls get txids of their own. -/
structure Kept (target other target' other' : Controller) : Prop where
  channel : target'.reader.channel = other.reader.channel
  dispatcher : target'.reader.dispatcher = other.reader.dispatcher
  errorHandler : target'.reader.errorHandler = other.reader.errorHandler
  handlers : target'.handlers = other.handlers
  undropped : other'.dropped = other.dropped ∧
    ∀ handler ∈ target'.dropped, handler ∈ target.dropped ∨ handler ∈ target.handlers.values
  fresh : ∀ channel, other.reader.channel = some channel → ∀ operations,
    Admissible perform (PicksFresh channel) ⟨target', other.handlers.keys⟩ operations
  unbound : other'.reader.channel = none
  emptied : other'.handlers.entries = []

/-! ## Txids -/

lemma pickTxid_free
    (found : pickTxid handlers fuel next = some (after, txid)) : ClientTxids.Free handlers txid := by
  induction fuel generalizing next with
  | zero => cases found
  | succ fuel ih =>
    simp only [pickTxid] at found
    split at found
    · exact ih found
    rename_i free
    cases found
    exact not_not.mp (mt (ClientTxids.taken_iff _).mpr free)

/-! ## Calls in flight -/

section Calls

variable {controller : Controller} {session next : Session} {operation : Operation} {channel : Channel}

@[simp] lemma unbind_channel : controller.unbind.1.reader.channel = none := by
  unfold Controller.unbind
  split
  · assumption
  · rfl

@[simp] lemma resetReader_channel : controller.resetReader.reader.channel = none := unbind_channel

/-- `Send` leaves the controller alone or unbinds it. -/
lemma transmit_cases (controller : Controller) (msg : Message) :
    (controller.transmit msg).1 = controller ∨
      (controller.transmit msg).1.reader.channel = none ∧ (controller.transmit msg).2 = false := by
  have failed : (if msg.errorsEnabled then controller.resetReader else controller) = controller ∨
      (if msg.errorsEnabled then controller.resetReader else controller).reader.channel = none := by
    split
    · exact .inr resetReader_channel
    · exact .inl rfl
  unfold Controller.transmit
  simp only
  split
  · exact failed.imp_right fun gone => ⟨gone, rfl⟩
  split
  · exact .inl rfl
  split
  · exact .inl rfl
  · exact .inl rfl
  · exact failed.imp_right fun gone => ⟨gone, rfl⟩

/-- While the controller is bound to the channel it has a handler for every call in flight. -/
def Covered (channel : Channel) (session : Session) : Prop :=
  session.controller.reader.channel = some channel →
    ∀ txid ∈ session.inFlight, txid ∈ session.controller.handlers

private lemma picksFresh_of_covered (covered : Covered channel session) :
    PicksFresh channel session operation := by
  intro txid pick bound inFlight
  cases operation with
  | receive => cases pick
  | send handler =>
    cases handler with
    | none => cases pick
    | some handler =>
      obtain ⟨⟨_, txid⟩, found, rfl⟩ := map_eq_some_iff.mp pick
      obtain ⟨v, entry⟩ := SortedMap.entry_of_mem (covered bound txid inFlight)
      exact (pickTxid_free found).2 _ entry rfl

private lemma covered_send (covered : Covered channel session)
    (performed : perform session (.send handler msg) = some next) : Covered channel next := by
  obtain ⟨⟨controller, _⟩, sent, rfl⟩ := map_eq_some_iff.mp performed
  intro bound txid inFlight
  cases handler with
  | none =>
    cases sent
    rw [toList_none, List.append_nil] at inFlight
    rcases transmit_cases session.controller msg with same | ⟨gone, -⟩
    · rw [same] at bound ⊢
      exact covered bound txid inFlight
    · cases gone.symm.trans bound
  | some handler =>
    obtain ⟨⟨after, fresh⟩, found, result⟩ := map_eq_some_iff.mp sent
    have absent : fresh ∉ session.controller.handlers := fun mem => by
      obtain ⟨_, entry⟩ := SortedMap.entry_of_mem mem
      exact (pickTxid_free found).2 _ entry rfl
    simp only at result
    rcases transmit_cases { session.controller with nextTxid := after } msg with same | ⟨gone, unwritten⟩
    · rw [same] at result
      split at result <;> cases result
      · rw [toList_some, List.mem_append, List.mem_singleton] at inFlight
        refine (SortedMap.mem_emplace absent).mpr ?_
        rcases inFlight with old | rfl
        · exact .inr (covered bound txid old)
        · exact .inl rfl
      · rw [toList_none, List.append_nil] at inFlight
        exact covered bound txid inFlight
    · rw [unwritten] at result
      cases result
      cases gone.symm.trans bound

private lemma covered_receive (covered : Covered channel session)
    (performed : perform session (.receive txid handled) = some next) : Covered channel next := by
  simp only [perform] at performed
  split at performed
  · cases performed
  cases performed
  intro bound other inFlight
  obtain ⟨inFlight, different⟩ := List.mem_filter.mp inFlight
  have different : other ≠ txid := by simpa using different
  simp only [Controller.dispatch] at bound ⊢
  split at bound
  next accepted =>
    rw [if_pos accepted]
    unfold Controller.onMessage at bound ⊢
    split at bound
    next event =>
      rw [if_pos event]
      exact covered bound other inFlight
    next response =>
      rw [if_neg response]
      split at bound
      · exact covered bound other inFlight
      · exact SortedMap.mem_erase.mpr ⟨covered bound other inFlight, different⟩
  · rw [unbind_channel] at bound
    cases bound

/-- From a controller that has a handler for every call in flight, every history of calls and
messages picks fresh txids. -/
lemma admissible_of_covered (covered : Covered channel session) :
    Admissible perform (PicksFresh channel) session operations := by
  refine @along_keeps _ _ perform (Covered channel) _ session operations
    (fun session operation next covered performed => ?_)
    (fun session operation next covered _ => picksFresh_of_covered covered) covered
  cases operation with
  | send => exact covered_send covered performed
  | receive => exact covered_receive covered performed

end Calls

/-! ## Moves -/

section Moves

variable {environment : Environment} {order : Order} {target other target' other' : Controller}
  {channel : Channel} {dispatcher : Dispatcher}

/-- The dispatcher that the target is bound to. -/
def boundTo (environment : Environment) (dispatcher : Dispatcher) : Order → Option Dispatcher
  | .dispatcherFirst => some dispatcher
  | .channelFirst => environment.defaultDispatcher

lemma boundTo_iff : boundTo environment dispatcher order = some dispatcher ↔
      order = .dispatcherFirst ∨ environment.defaultDispatcher = some dispatcher := by
  cases order with
  | dispatcherFirst | channelFirst => simp [boundTo]

private lemma unbind_bound (bound : other.reader.channel = some channel) :
    other.unbind = ({ other with
      reader := { other.reader with channel := none, dispatcher := none } }.clearPendingHandlers,
      some channel) := by
  rw [Controller.unbind, bound]

lemma bind_spec (begins : environment.waitBegins = true)
    (binds : target.bind environment (some channel) passed = some (target', status)) :
    status = true ∧ ∃ chosen, (passed <|> environment.defaultDispatcher) = some chosen ∧
      target' = { target.unbind.1 with
        reader := { target.unbind.1.reader with channel := some channel, dispatcher := some chosen } } := by
  unfold Controller.bind at binds
  simp only [begins, if_true] at binds
  split at binds <;> cases binds
  rename_i chosen found
  exact ⟨rfl, chosen, found, rfl⟩

lemma take_spec (bound : other.reader.channel = some channel)
    (on : other.reader.dispatcher = some dispatcher) (begins : environment.waitBegins = true)
    (taken : takeChannelAndErrorHandlerFrom environment order target other = some (target', other')) :
    ∃ chosen, boundTo environment dispatcher order = some chosen ∧
      target' = { target.unbind.1 with reader := ⟨some channel, some chosen, other.reader.errorHandler⟩ } ∧
      other' = { other with reader := {} }.clearPendingHandlers := by
  unfold takeChannelAndErrorHandlerFrom at taken
  rw [unbind_bound bound] at taken
  obtain ⟨⟨_, _⟩, binds, result⟩ := map_eq_some_iff.mp taken
  obtain ⟨rfl, chosen, passed, rfl⟩ := bind_spec begins binds
  cases result
  refine ⟨chosen, ?_, rfl, rfl⟩
  cases order with
  | dispatcherFirst =>
    rw [Order.dispatcher, on] at passed
    exact passed
  | channelFirst => exact passed

lemma reset_unbound (unbound : other.reader.channel = none) :
    other.reset.reader.channel = none ∧ other.reset.handlers = .empty ∧
      other.reset.dropped = other.dropped ++ other.handlers.values := by
  unfold Controller.reset Controller.resetReader Controller.unbind
  rw [unbound]
  exact ⟨unbound, rfl, rfl⟩

/-- Every call of `other` is in flight, and the target has its handler. -/
lemma covered_start (handlers : target.handlers = other.handlers) :
    Covered channel ⟨target, other.handlers.keys⟩ := by
  intro _ _ mem
  rw [handlers]
  exact mem

private lemma construct_spec (bound : other.reader.channel = some channel)
    (on : other.reader.dispatcher = some dispatcher) (begins : environment.waitBegins = true)
    (moved : moveConstruct environment order other = some (target', other')) :
    ∃ chosen, boundTo environment dispatcher order = some chosen ∧
      target'.reader = ⟨some channel, some chosen, other.reader.errorHandler⟩ ∧
      target'.handlers = other.handlers ∧ target'.dropped = [] ∧
      other'.reader.channel = none ∧ other'.handlers = .empty ∧ other'.dropped = other.dropped := by
  obtain ⟨⟨_, _⟩, taken, result⟩ := map_eq_some_iff.mp moved
  cases result
  obtain ⟨chosen, passed, rfl, rfl⟩ :=
    @take_spec environment order _ { other with handlers := .empty } _ _ channel dispatcher bound on begins
      taken
  have reset := @reset_unbound
    { ({ other with handlers := .empty }) with reader := {} }.clearPendingHandlers rfl
  refine ⟨chosen, passed, rfl, rfl, rfl, reset.1, reset.2.1, ?_⟩
  rw [reset.2.2]
  simp [Controller.clearPendingHandlers, SortedMap.values, SortedMap.empty]

private lemma assign_spec (bound : other.reader.channel = some channel)
    (on : other.reader.dispatcher = some dispatcher) (begins : environment.waitBegins = true)
    (moved : moveAssign environment order target other = some (target', other')) :
    ∃ chosen, boundTo environment dispatcher order = some chosen ∧
      target'.reader = ⟨some channel, some chosen, other.reader.errorHandler⟩ ∧ target'.handlers = .empty ∧
      target'.dropped = target.unbind.1.dropped ++ target.unbind.1.handlers.values ∧
      other'.reader.channel = none ∧ other'.handlers = .empty ∧
      other'.dropped = other.dropped ++ other.handlers.values := by
  obtain ⟨⟨_, _⟩, taken, result⟩ := map_eq_some_iff.mp moved
  cases result
  obtain ⟨chosen, passed, rfl, rfl⟩ := take_spec bound on begins taken
  have reset := @reset_unbound
    { ({ other with reader := {} }).clearPendingHandlers with handlers := .empty } rfl
  refine ⟨chosen, passed, rfl, rfl, rfl, reset.1, reset.2.1, ?_⟩
  rw [reset.2.2]
  simp [Controller.clearPendingHandlers, SortedMap.values, SortedMap.empty]

/-- The target drops its own handlers, when it is unbound or when the map is assigned. -/
private lemma mem_dropped_unbind (mem : handler ∈ target.unbind.1.dropped ++ target.unbind.1.handlers.values) :
    handler ∈ target.dropped ∨ handler ∈ target.handlers.values := by
  unfold Controller.unbind at mem
  split at mem
  · exact List.mem_append.mp mem
  · simpa [Controller.clearPendingHandlers, SortedMap.values, SortedMap.empty] using mem

end Moves

/-- A move whose wait begins hands everything over exactly if the dispatcher is read before
`Unbind` clears it, or is the default one, and the handlers are taken before `Unbind` drops
them, or there are none. -/
theorem move_keeps_calls_iff (environment : Environment) (order : Order) (move : Move)
    (target other target' other' : Controller) (channel : Channel) (dispatcher : Dispatcher)
    (bound : other.reader.channel = some channel) (on : other.reader.dispatcher = some dispatcher)
    (begins : environment.waitBegins = true)
    (moved : move.run environment order target other = some (target', other')) :
    Kept target other target' other' ↔
      (order = .dispatcherFirst ∨ environment.defaultDispatcher = some dispatcher) ∧
        (move = .construct ∨ other.handlers.entries = []) := by
  rw [← boundTo_iff]
  cases move with
  | construct =>
    obtain ⟨chosen, passed, reader, handlers, dropped, unbound, emptied, kept⟩ :=
      construct_spec bound on begins moved
    constructor
    · intro done
      refine ⟨?_, .inl rfl⟩
      have same := done.dispatcher
      rw [reader, on] at same
      exact passed.trans same
    · rintro ⟨right, -⟩
      cases passed.symm.trans right
      refine ⟨?_, ?_, ?_, handlers, ⟨kept, ?_⟩, ?_, unbound, ?_⟩
      · rw [reader, bound]
      · rw [reader, on]
      · rw [reader]
      · rw [dropped]
        exact fun handler member => absurd member List.not_mem_nil
      · exact fun channel _ operations => admissible_of_covered (covered_start handlers)
      · rw [emptied]
        rfl
  | assign =>
    obtain ⟨chosen, passed, reader, handlers, dropped, unbound, emptied, kept⟩ :=
      assign_spec bound on begins moved
    constructor
    · intro done
      have same := done.dispatcher
      rw [reader, on] at same
      refine ⟨passed.trans same, .inr ?_⟩
      rw [← done.handlers, handlers]
      rfl
    · rintro ⟨right, construct | none⟩
      · cases construct
      · cases passed.symm.trans right
        have handlers : target'.handlers = other.handlers := by
          rw [handlers, SortedMap.eq_empty none]
        refine ⟨?_, ?_, ?_, handlers, ⟨?_, ?_⟩, ?_, unbound, ?_⟩
        · rw [reader, bound]
        · rw [reader, on]
        · rw [reader]
        · rw [kept, SortedMap.values, none]
          exact List.append_nil _
        · rw [dropped]
          exact fun handler => mem_dropped_unbind
        · exact fun channel _ operations => admissible_of_covered (covered_start handlers)
        · rw [emptied]
          rfl

/-- A controller with one call outstanding. -/
def waiting : Controller where
  reader := ⟨some 3, some 7, some 9⟩
  handlers := SortedMap.empty.emplace 1 5
  nextTxid := 2

theorem move_keeps_calls_of_construct : ∃ target other,
    Move.run ⟨none, true⟩ .dispatcherFirst {} waiting .construct = some (target, other) ∧
      Kept {} waiting target other :=
  ⟨_, _, rfl, (move_keeps_calls_iff ⟨none, true⟩ .dispatcherFirst .construct {} waiting _ _ 3 7
    rfl rfl rfl rfl).mpr ⟨.inl rfl, .inl rfl⟩⟩

/-- Move assignment drops the handler of the outstanding call and numbers calls from one
again; with the other order of evaluation the target is bound to the default dispatcher. -/
theorem move_loses_calls :
    (∃ target other, Move.run ⟨none, true⟩ .dispatcherFirst {} waiting .assign = some (target, other) ∧
      target.reader.channel = some 3 ∧ target.handlers.entries = [] ∧ other.dropped = [5] ∧
      target.nextTxid = 1) ∧
    ∃ target other, Move.run ⟨some 8, true⟩ .channelFirst {} waiting .construct = some (target, other) ∧
      waiting.reader.dispatcher = some 7 ∧ target.reader.dispatcher = some 8 :=
  ⟨⟨_, _, rfl, rfl, rfl, rfl, rfl⟩, _, _, rfl, rfl, rfl⟩

end FuchsiaSdk.ProxyController
