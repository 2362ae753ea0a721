import FuchsiaSdk.Machine
import FuchsiaSdk.WatchChain

/-! `MessageReader` (`fidl/cpp/internal/message_reader.cc`) and the handlers it calls. Its
functions run until they call a handler; the handler may call into the reader again, and
destroy, unbind or rebind it. What a frame finds when its handler returns is told by a
`Canary` on the stack, a watch in the slot `should_stop_` or `destroyed_` of the reader. -/
namespace FuchsiaSdk.MessageReader
open WatchChain

inductive Status where
  | ok
  | shouldWait
  | stop
  | invalidArgs
  | peerClosed
  | protocolNotSupported
  | other (code : Nat)
  deriving DecidableEq, Repr

structure Reader where
  /-- The binding to a channel. Bindings are numbered, so one that is undone does not return
  with the channel. -/
  binding : Option Nat := none
  /-- The wait has begun and has not ended. -/
  waiting : Bool := false
  hasMessageHandler : Bool
  hasErrorHandler : Bool
  deriving DecidableEq, Repr

/-- The caller of `ReadAndDispatchMessage`. -/
inductive Caller where
  /-- `OnHandleReady`, with the number of messages that its loop reads after this one. -/
  | handleReady (remaining : Nat)
  | waitAndDispatch
  deriving DecidableEq, Repr

/-- Where `NotifyError` returns to. -/
inductive Return where
  /-- The end of `OnHandleReady` or `WaitAndDispatchOneMessageUntil`. -/
  | finish
  /-- `ReadAndDispatchMessage`, which then returns the status, with its canary if it has one. -/
  | reading (caller : Caller) (status : Status) (canary : Option Nat)
  deriving DecidableEq, Repr

/-- A frame with its handler running on top of it, the binding it works for and its canary. -/
inductive Frame where
  | message (caller : Caller) (binding canary : Nat)
  /-- `NotifyError`. -/
  | error (after : Return) (binding canary : Nat)
  deriving DecidableEq, Repr

/-- What runs now. -/
inductive Mode where
  /-- A handler, or the program outside of the reader. -/
  | user
  /-- `ReadAndDispatchMessage` begins. -/
  | reading (caller : Caller) (binding : Nat)
  /-- `OnHandleReady` begins a wait. -/
  | beginning (binding : Nat)
  /-- `NotifyError` begins. -/
  | notifying (after : Return) (binding : Nat)
  /-- `NotifyError` has returned. -/
  | notified (after : Return) (binding : Nat)
  deriving DecidableEq, Repr

/-- The reader with its slots. -/
structure Core where
  /-- The reader, while it exists. -/
  reader : Option Reader
  /-- The canaries with the slot `should_stop_`. -/
  stops : Chain := {}
  /-- The canaries with the slot `destroyed_`. -/
  deaths : Chain := {}
  /-- The number of bindings there have been. -/
  bindings : Nat := 0
  /-- The number of calls of the error handler for each binding. -/
  calls : Nat → Nat := fun _ => 0

structure State extends Core where
  mode : Mode := .user
  stack : List Frame := []
  /-- A reader that was destroyed has been touched. -/
  corrupted : Bool := false

inductive Event where
  | failed
  | readable (count : Nat)
  | peerClosed
  deriving DecidableEq, Repr

inductive Outcome where
  | timedOut
  | failed
  | readable
  | peerClosed
  deriving DecidableEq, Repr

inductive ReadResult where
  | shouldWait
  | failed (code : Nat)
  | unsupportedVersion
  | epitaph (wellFormed : Bool)
  | message
  deriving DecidableEq, Repr

inductive Label where
  | setHandlers (message error : Bool)
  /-- The dispatcher calls `OnHandleReady`. -/
  | handleReady (event : Event)
  | waitAndDispatch (outcome : Outcome)
  | unbind
  | bind (begins : Bool)
  | destroy
  /-- The handler on top of the stack returns; the status is that of a message handler. -/
  | ret (status : Status)
  | read (result : ReadResult)
  | beginWait (begins : Bool)
  /-- `NotifyError` runs; `OnChannelGone` may destroy the reader. -/
  | notify (destroys : Bool)
  | resume
  deriving DecidableEq, Repr

namespace Core

/-- The binding that the reader has, while it exists. -/
def current (core : Core) : Option Nat := core.reader.bind Reader.binding

/-- `Unbind`. -/
def unbind (core : Core) (reader : Reader) : Core :=
  match reader.binding with
  | none => core
  | some _ => { core with
      stops := core.stops.stop, reader := some { reader with binding := none, waiting := false } }

/-- `Bind` to a channel. -/
def bind (core : Core) (reader : Reader) (begins : Bool) : Core :=
  let core := core.unbind reader
  let reader := { reader with binding := some core.bindings, waiting := true }
  let core := { core with reader := some reader, bindings := core.bindings + 1 }
  if begins then core else core.unbind reader

/-- The destructor. -/
def destroy (core : Core) : Core :=
  { core with stops := core.stops.stop, deaths := core.deaths.stop, reader := none }

end Core

namespace State

def corrupt (st : State) : State := { st with corrupted := true }

/-- `ReadAndDispatchMessage` returns a status. -/
def afterRead (st : State) (caller : Caller) (binding : Nat) (status : Status) : State :=
  match caller, status with
  | .handleReady _, .shouldWait => { st with mode := .beginning binding }
  | .handleReady 0, .ok => { st with mode := .beginning binding }
  | .handleReady (remaining + 1), .ok => { st with mode := .reading (.handleReady remaining) binding }
  | _, _ => { st with mode := .user }

/-- `OnHandleReady` up to its first message. -/
def handleReady (st : State) (reader : Reader) (binding : Nat) (event : Event) : State :=
  let st := { st with reader := some { reader with waiting := false } }
  match event with
  | .failed | .peerClosed => { st with mode := .notifying .finish binding }
  | .readable 0 => { st with mode := .beginning binding }
  | .readable (remaining + 1) => { st with mode := .reading (.handleReady remaining) binding }

/-- `WaitAndDispatchOneMessageUntil` up to its message. -/
def waitAndDispatch (st : State) (reader : Reader) (outcome : Outcome) : State :=
  match reader.binding, outcome with
  | none, _ | some _, .timedOut => st
  | some binding, .failed | some binding, .peerClosed => { st with mode := .notifying .finish binding }
  | some binding, .readable => { st with mode := .reading .waitAndDispatch binding }

/-- `ReadAndDispatchMessage` up to its handler. -/
def read (st : State) (reader : Reader) (caller : Caller) (binding : Nat) (result : ReadResult) : State :=
  let fail (status : Status) := { st with mode := .notifying (.reading caller status none) binding }
  match result with
  | .shouldWait => st.afterRead caller binding .shouldWait
  | .failed code => fail (.other code)
  | .unsupportedVersion => fail .protocolNotSupported
  | .epitaph false => fail .invalidArgs
  | .epitaph true => fail .peerClosed
  | .message =>
    if !reader.hasMessageHandler then st.afterRead caller binding .ok
    else { st with
      stops := st.stops.push
      stack := .message caller binding st.stops.count :: st.stack
      mode := .user }

/-- `NotifyError` up to its handler. -/
def notify (st : State) (reader : Reader) (after : Return) (binding : Nat) (destroys : Bool) : State :=
  let canary := st.deaths.count
  let core := { st.toCore with deaths := st.deaths.push }.unbind reader
  -- `OnChannelGone`
  let core := if destroys && reader.binding.isSome && reader.hasMessageHandler then core.destroy else core
  if (core.deaths.watches canary).stopped || !reader.hasErrorHandler then
    { st with toCore := { core with deaths := core.deaths.pop canary }, mode := .notified after binding }
  else { st with
    toCore := { core with calls := Function.update core.calls binding (core.calls binding + 1) }
    stack := .error after binding canary :: st.stack, mode := .user }

/-- A handler returns to the frame on top of the stack. -/
def ret (st : State) (status : Status) : Option State :=
  match st.stack with
  | [] => none
  | .message caller binding canary :: rest =>
    if (st.stops.watches canary).stopped then
      some ({ st with stops := st.stops.pop canary, stack := rest }.afterRead caller binding .stop)
    else if st.reader.isNone then some st.corrupt
    else if status = .ok then
      some ({ st with stops := st.stops.pop canary, stack := rest }.afterRead caller binding .ok)
    else some { st with stack := rest, mode := .notifying (.reading caller status (some canary)) binding }
  | .error after binding canary :: rest =>
    if !(st.deaths.watches canary).stopped && st.reader.isNone then some st.corrupt
    else some { st with
      deaths := st.deaths.pop canary, stack := rest, mode := .notified after binding }

/-- The caller of `NotifyError` goes on. -/
def resume (st : State) (after : Return) (binding : Nat) : State :=
  match after with
  | .finish => { st with mode := .user }
  | .reading caller status none => st.afterRead caller binding status
  | .reading caller status (some canary) =>
    if !(st.stops.watches canary).stopped && st.reader.isNone then st.corrupt
    else { st with stops := st.stops.pop canary }.afterRead caller binding status

end State

/-- The functions of the reader that a handler or the program calls. -/
def call (st : State) (reader : Reader) : Label → Option State
  | .setHandlers message error =>
    some { st with reader := some { reader with hasMessageHandler := message, hasErrorHandler := error } }
  | .handleReady event =>
    match reader.waiting, reader.binding with
    | true, some binding => some (st.handleReady reader binding event)
    | _, _ => none
  | .waitAndDispatch outcome => some (st.waitAndDispatch reader outcome)
  | .unbind => some { st with toCore := st.toCore.unbind reader }
  | .bind begins => some { st with toCore := st.toCore.bind reader begins }
  | .destroy => some { st with toCore := st.toCore.destroy }
  | _ => none

def step (st : State) (label : Label) : Option State :=
  if st.corrupted then none
  else
    match st.mode, label with
    | .user, .ret status => st.ret status
    | .user, label => st.reader.bind fun reader => call st reader label
    | .reading caller binding, .read result =>
      some (st.reader.elim st.corrupt fun reader => st.read reader caller binding result)
    | .beginning binding, .beginWait begins =>
      some (st.reader.elim st.corrupt fun reader =>
        if begins then { st with reader := some { reader with waiting := true }, mode := .user }
        else { st with mode := .notifying .finish binding })
    | .notifying after binding, .notify destroys =>
      some (st.reader.elim st.corrupt fun reader => st.notify reader after binding destroys)
    | .notified after binding, .resume => some (st.resume after binding)
    | _, _ => none

/-! ## What is asked of the frames -/

/-- The binding of a frame that touches the reader in a step. -/
def touching (st : State) (label : Label) : Option Nat :=
  match st.mode, label with
  | .reading _ binding, .read _ => some binding
  | .beginning binding, .beginWait _ => some binding
  | .notifying _ binding, .notify _ => some binding
  | .notified (.reading _ _ (some canary)) binding, .resume =>
    if (st.stops.watches canary).stopped then none else some binding
  | .user, .ret _ =>
    match st.stack with
    | .message _ binding canary :: _ => if (st.stops.watches canary).stopped then none else some binding
    | _ => none
  | _, _ => none

/-- A step of the frames as it should be. -/
structure Proper (st : State) (label : Label) (next : State) : Prop where
  /-- The reader is touched only by a frame whose binding has lasted. -/
  lasting : ∀ binding, touching st label = some binding → st.current = some binding
  /-- `NotifyError`, which has ended the binding itself, touches the reader after its handler
  only if the reader exists. -/
  existing : ∀ status after binding canary rest, st.mode = .user → label = .ret status →
    st.stack = .error after binding canary :: rest → (st.deaths.watches canary).stopped = false →
    st.reader.isSome
  /-- After `ZX_OK`, `OnHandleReady` reads the next message or begins the wait. -/
  continues : ∀ remaining binding canary rest, st.mode = .user → label = .ret .ok →
    st.stack = .message (.handleReady remaining) binding canary :: rest → st.current = some binding →
    (∃ caller, next.mode = .reading caller binding) ∨ next.mode = .beginning binding
  /-- After `ZX_ERR_SHOULD_WAIT`, the reader stays bound, and `OnHandleReady` begins the wait. -/
  waits : ∀ caller binding canary rest, st.mode = .user → label = .ret .shouldWait →
    st.stack = .message caller binding canary :: rest → st.current = some binding →
    next.current = some binding ∧ (next.mode = .user ∨ next.mode = .beginning binding)

/-- The message handler does not return `ZX_ERR_SHOULD_WAIT` while the binding lasts. -/
def NeverWaits (st : State) (label : Label) : Prop :=
  ∀ caller binding canary rest, st.mode = .user → label = .ret .shouldWait →
    st.stack = .message caller binding canary :: rest → st.current ≠ some binding

/-- A reader that is not bound, with the handlers it may have. -/
def start (hasMessageHandler hasErrorHandler : Bool) : State :=
  { toCore := { reader := some { hasMessageHandler, hasErrorHandler } } }

end FuchsiaSdk.MessageReader
