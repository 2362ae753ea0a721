import FuchsiaSdk.Machine

/-! Teardown of `AsyncBinding` (`async_binding.cc`, `async_binding.h`,
`async_transaction.cc`), from the moment `BeginFirstWait` has succeeded. One
step is one section under `lock_`, one hand-over by the dispatcher, or one move
of `keep_alive_`.

The dispatcher: a wait is one-shot; cancelling it succeeds iff it is pending,
and then its handler never runs; a posted task runs once; after shutdown
`Begin` and posting fail, and what is still pending runs with a cancelled
status. `TeardownTask::Invoke` does not look at its status. -/
namespace FuchsiaSdk.AsyncBinding
open Machine List Bool

inductive Reason where
  | unbind
  | close
  | pendingTwoWayCallPreventsUnbind
  | canceledDueToOtherError
  | peerClosedWhileReading
  | dispatcherError
  | transportError
  | encodeError
  | decodeError
  | unexpectedMessage
  | unknownMethod
  | abandonedAsyncReply
  deriving DecidableEq, Repr

structure UnbindInfo where
  reason : Reason
  status : Int
  deriving DecidableEq, Repr

inductive ErrorOrigin where
  | receive
  | send
  deriving DecidableEq, Repr

structure DispatchError where
  info : UnbindInfo
  origin : ErrorOrigin
  deriving DecidableEq, Repr

def DispatchError.requiresImmediateTeardown (error : DispatchError) : Bool :=
  !(error.origin == .send && error.info.reason == .peerClosedWhileReading)

/-- `UnbindInfo::Unbind()`. -/
def UnbindInfo.unbind : UnbindInfo := ⟨.unbind, 0⟩

inductive Lifecycle where
  | created
  | bound
  /-- With the reason stored by the transition. -/
  | mustTeardown (info : UnbindInfo)
  | torndown
  deriving DecidableEq, Repr

/-- One run of `MessageHandler` or `WaitFailureHandler`. -/
inductive Handler where
  /-- In `Dispatch`, `EnableNextDispatch` not called. -/
  | upcall
  /-- In `Dispatch`, and `EnableNextDispatch` has begun the next wait. -/
  | upcallEarly
  /-- In `Dispatch`, and `EnableNextDispatch` has left its placeholder error. -/
  | upcallRefused
  /-- About to call `CheckForTeardownAndBeginNextWait`. -/
  | checking
  /-- About to call `PerformTeardown`. -/
  | tearing (info : Option UnbindInfo)
  | returned
  deriving DecidableEq, Repr

/-- One call of `StartTeardownWithInfo` that moved the lifecycle, with the task
it posts. -/
inductive Starter where
  | posting
  | postFailed
  /-- The task is posted and waits for the result of the cancellation. -/
  | cancelling
  | cancelled (ok : Bool)
  | finished
  deriving DecidableEq, Repr

/-- One call of `PerformTeardown`: `keep_alive_` is moved out, and after the
locked section `FinishTeardown` has the stored reason. -/
inductive Teardown where
  | begun (info : Option UnbindInfo)
  | finished (info : UnbindInfo)
  deriving DecidableEq, Repr

structure State where
  lifecycle : Lifecycle := .bound
  keepAlive : Bool := true
  waitPending : Bool := true
  isShutdown : Bool := false
  handlers : List Handler := []
  starters : List Starter := []
  teardowns : List Teardown := []
  -- History: the reason given with the first transition to `kMustTeardown`, whether a teardown
  -- was asked for or a wait failed, up-calls begun after `PerformTeardown`, and assertions and
  -- aborts that fired.
  firstInfo : Option UnbindInfo := none
  requested : Bool := false
  lateUpcalls : Nat := 0
  failedAsserts : Nat := 0
  deriving DecidableEq, Repr

inductive Label where
  | message
  | waitFailure (info : UnbindInfo)
  | enableNextDispatch (handler : Nat) (status : Int)
  | dispatchReturns (handler : Nat) (error : Option DispatchError)
  | beginNextWait (handler : Nat) (status : Int)
  | performTeardown (handler : Nat)
  | startTeardownWithInfo (info : UnbindInfo)
  | postTask (starter : Nat)
  | cancelWait (starter : Nat)
  | runTask (starter : Nat)
  | finishTeardown (teardown : Nat)
  | shutdown
  deriving DecidableEq, Repr

namespace State

def check (st : State) (holds : Bool) : State :=
  { st with failedAsserts := Machine.assert st.failedAsserts holds }

def transitionToMustTeardown (st : State) (info : UnbindInfo) : State :=
  match st.lifecycle with
  | .mustTeardown _ => st
  | .created | .bound | .torndown =>
    { st.check (st.lifecycle != .torndown) with
      lifecycle := .mustTeardown info
      firstInfo := some (st.firstInfo.getD info) }

/-- `CheckForTeardownAndBeginNextWait`, when `Begin` returns `status`. -/
def checkForTeardownAndBeginNextWait (st : State) (status : Int) : Bool × State :=
  match st.lifecycle with
  | .mustTeardown _ => (false, st)
  | .bound =>
    if status = 0 then (true, { st with waitPending := true })
    else (false, st.transitionToMustTeardown ⟨.dispatcherError, status⟩)
  | .created | .torndown => (false, st.check false)

/-- The locked section of `PerformTeardown`; `TransitionToTorndown` hands out
the stored reason, which is only there in `kMustTeardown`. -/
def finishTeardown (st : State) (teardown : Nat) (info : Option UnbindInfo) : State :=
  let st := match info with
    | some info => st.transitionToMustTeardown info
    | none => st
  match st.lifecycle with
  | .mustTeardown stored =>
    { st with
      lifecycle := .torndown, teardowns := st.teardowns.set teardown (.finished stored) }
  | .created | .bound | .torndown => { st.check false with lifecycle := .torndown }

def setHandler (st : State) (handler : Nat) (phase : Handler) : State :=
  { st with handlers := st.handlers.set handler phase }

def setStarter (st : State) (starter : Nat) (phase : Starter) : State :=
  { st with starters := st.starters.set starter phase }

/-- The first line of `PerformTeardown`. -/
def performTeardown (st : State) (info : Option UnbindInfo) : State :=
  { st with keepAlive := false, teardowns := st.teardowns ++ [.begun info] }

end State

/-- Where `MessageHandler` goes on once `Dispatch` has returned. -/
def afterDispatch : Option DispatchError → Handler
  | some error => if error.requiresImmediateTeardown then .tearing (some error.info) else .checking
  | none => .checking

def step (st : State) : Label → Option State
  | .message =>
    if st.waitPending ∧ !st.isShutdown then
      some { st.check st.keepAlive with
        waitPending := false
        handlers := st.handlers ++ [.upcall]
        lateUpcalls := if st.teardowns = [] then st.lateUpcalls else st.lateUpcalls + 1 }
    else none
  | .waitFailure info =>
    if st.waitPending then
      some { st.check st.keepAlive with
        waitPending := false
        handlers := st.handlers ++ [.tearing (some info)]
        requested := true }
    else none
  | .enableNextDispatch handler status =>
    if st.handlers[handler]? = some .upcall ∧ (status = 0 → st.isShutdown = false) then
      let (ok, st) := st.checkForTeardownAndBeginNextWait status
      some (st.setHandler handler (if ok then .upcallEarly else .upcallRefused))
    else none
  | .dispatchReturns handler error =>
    match st.handlers[handler]? with
    | some .upcall => some (st.setHandler handler (afterDispatch error))
    | some .upcallEarly => some (st.setHandler handler .returned)
    | some .upcallRefused =>
      some (st.setHandler handler (afterDispatch (some ⟨.unbind, .receive⟩)))
    | _ => none
  | .beginNextWait handler status =>
    if st.handlers[handler]? = some .checking ∧ (status = 0 → st.isShutdown = false) then
      let (ok, st) := st.checkForTeardownAndBeginNextWait status
      some (st.setHandler handler (if ok then .returned else .tearing none))
    else none
  | .performTeardown handler =>
    match st.handlers[handler]? with
    | some (.tearing info) => some ((st.setHandler handler .returned).performTeardown info)
    | _ => none
  | .startTeardownWithInfo info =>
    match st.lifecycle with
    | .mustTeardown _ | .torndown => some { st with requested := true }
    | .created | .bound =>
      let st := st.transitionToMustTeardown info
      some { st with requested := true, starters := st.starters ++ [.posting] }
  | .postTask starter =>
    if st.starters[starter]? = some .posting then
      some (st.setStarter starter (if st.isShutdown then .postFailed else .cancelling))
    else none
  | .cancelWait starter =>
    if st.starters[starter]? = some .cancelling then
      some { st.setStarter starter (.cancelled st.waitPending) with waitPending := false }
    else none
  | .runTask starter =>
    match st.starters[starter]? with
    | some (.cancelled true) =>
      some (((st.check st.keepAlive).setStarter starter .finished).performTeardown none)
    | some (.cancelled false) => some (st.setStarter starter .finished)
    | _ => none
  | .finishTeardown teardown =>
    match st.teardowns[teardown]? with
    | some (.begun info) => some (st.finishTeardown teardown info)
    | _ => none
  | .shutdown => some { st with isShutdown := true }

/-! ## The right to tear down

The pending wait, a handler that has not begun the next wait, a cancellation
that succeeded and a call of `PerformTeardown` are the places where the right
to tear the binding down can be. There is exactly one of them at any time. -/

def Handler.holds : Handler → Bool
  | .upcall | .upcallRefused | .checking | .tearing _ => true
  | .upcallEarly | .returned => false

def Starter.holds : Starter → Bool
  | .cancelled ok => ok
  | _ => false

/-- The call will still cancel the wait. -/
def Starter.isActive : Starter → Bool
  | .posting | .cancelling => true
  | _ => false

structure Inv (st : State) : Prop where
  token : st.waitPending.toNat + st.handlers.countP Handler.holds +
    st.starters.countP Starter.holds + st.teardowns.length = 1
  alive : st.keepAlive = st.teardowns.isEmpty
  begun : st.lifecycle ≠ .created
  torn : st.lifecycle = .torndown ↔ ∃ info, .finished info ∈ st.teardowns
  unset : st.lifecycle = .bound → st.firstInfo = none
  recorded : ∀ info, st.lifecycle = .mustTeardown info → st.firstInfo = some info
  reported : ∀ info, .finished info ∈ st.teardowns → st.firstInfo = some info
  decided : .tearing none ∈ st.handlers ∨ .begun none ∈ st.teardowns ∨
    st.starters ≠ [] → st.lifecycle ≠ .bound
  awaited : st.waitPending = true → st.lifecycle ≠ .bound →
    (∃ starter ∈ st.starters, starter.isActive = true) ∨ st.isShutdown = true
  asked : st.requested = true → st.lifecycle ≠ .bound ∨
    (∃ info, .tearing info ∈ st.handlers) ∨ ∃ info, .begun info ∈ st.teardowns
  onTime : st.lateUpcalls = 0
  asserts : st.failedAsserts = 0

variable {st next : State} {label : Label} {handler starter teardown : Nat} {phase old : Handler}

lemma inv_init : Inv {} := by
  constructor <;> simp

/-- Before `PerformTeardown` the binding is bound or must be torn down. -/
lemma Inv.live (inv : Inv st) (untorn : st.teardowns = []) :
    st.lifecycle = .bound ∨ ∃ info, st.lifecycle = .mustTeardown info := by
  have begun := inv.begun
  have torn := inv.torn
  rw [untorn] at torn
  cases lifecycle : st.lifecycle with
  | created => exact absurd lifecycle begun
  | bound => exact .inl rfl
  | mustTeardown info => exact .inr ⟨info, rfl⟩
  | torndown => simp [lifecycle] at torn

/-- Who has the right to tear down is the only one. -/
lemma Inv.handler_alone (inv : Inv st) (found : st.handlers[handler]? = some phase)
    (holds : phase.holds = true) : st.waitPending = false ∧ st.teardowns = [] ∧
      st.handlers.countP Handler.holds = 1 ∧ st.starters.countP Starter.holds = 0 := by
  have token := inv.token
  have positive : 0 < st.handlers.countP Handler.holds :=
    countP_pos_iff.mpr ⟨phase, mem_of_getElem? found, holds⟩
  have pending : st.waitPending = false := by
    by_contra pending
    rw [eq_true_of_ne_false pending, toNat_true] at token
    omega
  refine ⟨pending, length_eq_zero_iff.mp ?_, ?_, ?_⟩ <;> omega

lemma Inv.wait_alone (inv : Inv st) (pending : st.waitPending = true) :
    st.teardowns = [] ∧ st.handlers.countP Handler.holds = 0 ∧
      st.starters.countP Starter.holds = 0 := by
  have token := inv.token
  rw [pending, toNat_true] at token
  refine ⟨length_eq_zero_iff.mp ?_, ?_, ?_⟩ <;> omega

/-- The wait fires. -/
lemma Inv.arrive (inv : Inv st) (pending : st.waitPending = true)
    (holds : phase.holds = true) (decided : phase ≠ .tearing none)
    (asked : requested = true → st.requested = true ∨ ∃ info, phase = .tearing info) : Inv { st with
      waitPending := false
      handlers := st.handlers ++ [phase]
      requested := requested } := by
  have token := inv.token
  refine { inv with
    token := ?token, decided := ?decided, awaited := fun now => (by simp at now),
    asked := ?asked }
  case token =>
    rw [pending, toNat_true] at token
    simp [holds]
    omega
  case decided =>
    intro waiting
    apply inv.decided
    simpa [decided.symm] using waiting
  case asked =>
    intro now
    rcases asked now with before | ⟨info, rfl⟩
    · rcases inv.asked before with moved | ⟨info, mem⟩ | begun
      · exact .inl moved
      · exact .inr (.inl ⟨info, mem_append_left _ mem⟩)
      · exact .inr (.inr begun)
    · exact .inr (.inl ⟨info, by simp⟩)

/-- A handler that is not yet about to tear down moves on; it may begin the
next wait, or be the one to decide on the teardown. -/
lemma Inv.proceed (inv : Inv st) (found : st.handlers[handler]? = some old)
    (new : Handler) (calm : ∀ info, old ≠ .tearing info)
    (token : waitPending.toNat + (if new.holds then 1 else 0) =
      st.waitPending.toNat + (if old.holds then 1 else 0))
    (moved : (lifecycle = st.lifecycle ∧ firstInfo = st.firstInfo) ∨
      (st.lifecycle = .bound ∧ ∃ info, lifecycle = .mustTeardown info ∧ firstInfo = some info))
    (decided : new = .tearing none → lifecycle ≠ .bound) (awaited : waitPending = true →
      lifecycle = .bound ∨ (lifecycle = st.lifecycle ∧ st.waitPending = true)) : Inv { st with
      lifecycle := lifecycle
      firstInfo := firstInfo
      waitPending := waitPending
      handlers := st.handlers.set handler new } := by
  have before := inv.token
  have count := countP_set_add found new Handler.holds
  -- Either way what was decided before stays decided.
  have stays : st.lifecycle ≠ .bound → lifecycle ≠ .bound := by
    rcases moved with ⟨rfl, -⟩ | ⟨bound, -⟩
    · exact id
    · exact fun unbound => absurd bound unbound
  have torn : lifecycle = .torndown ↔ st.lifecycle = .torndown := by
    rcases moved with ⟨rfl, -⟩ | ⟨bound, info, rfl, -⟩
    · exact Iff.rfl
    · simp [bound]
  refine { inv with
    token := ?token, begun := ?begun, torn := torn.trans inv.torn, unset := ?unset,
    recorded := ?recorded, reported := ?reported, decided := ?decided, awaited := ?awaited,
    asked := ?asked }
  case token => dsimp only; omega
  case begun =>
    rcases moved with ⟨rfl, -⟩ | ⟨-, info, rfl, -⟩
    · exact inv.begun
    · simp
  case unset =>
    rcases moved with ⟨rfl, rfl⟩ | ⟨-, info, rfl, -⟩
    · exact inv.unset
    · simp
  case recorded =>
    rcases moved with ⟨rfl, rfl⟩ | ⟨-, info, rfl, rfl⟩
    · exact inv.recorded
    rintro _ same
    cases same
    rfl
  case reported =>
    intro info finished
    rcases moved with ⟨-, rfl⟩ | ⟨bound, -⟩
    · exact inv.reported info finished
    have torndown := inv.torn.mpr ⟨info, finished⟩
    rw [bound] at torndown
    cases torndown
  case decided =>
    rintro (mem | begun | started)
    · rcases mem_or_eq_of_mem_set mem with mem | same
      · exact stays (inv.decided (.inl mem))
      · exact decided same.symm
    · exact stays (inv.decided (.inr (.inl begun)))
    · exact stays (inv.decided (.inr (.inr started)))
  case awaited =>
    intro pending unbound
    rcases awaited pending with bound | ⟨same, was⟩
    · exact absurd bound unbound
    · exact inv.awaited was (same ▸ unbound)
  case asked =>
    intro requested
    rcases inv.asked requested with unbound | ⟨info, mem⟩ | begun
    · exact .inl (stays unbound)
    · exact .inr (.inl ⟨info, mem_set_of_ne found new (calm info).symm mem⟩)
    · exact .inr (.inr begun)

lemma transitionToMustTeardown_bound (bound : st.lifecycle = .bound)
    (unset : st.firstInfo = none) : st.transitionToMustTeardown info =
      { st with lifecycle := .mustTeardown info, firstInfo := some info } := by
  simp [State.transitionToMustTeardown, State.check, assert, bound, unset]

section

variable (inv : Inv st)
include inv

private lemma recheck_keeps (found : st.handlers[handler]? = some old)
    (calm : ∀ info, old ≠ .tearing info) (holds : old.holds = true)
    (released : begun.holds = false) (kept : refused.holds = true) (status : Int) :
    Inv ((st.checkForTeardownAndBeginNextWait status).2.setHandler handler
      (if (st.checkForTeardownAndBeginNextWait status).1 then begun else refused)) := by
  obtain ⟨pending, untorn, -, -⟩ := inv.handler_alone found holds
  rcases inv.live untorn with bound | ⟨info, must⟩
  · by_cases ok : status = 0
    · simp only [State.checkForTeardownAndBeginNextWait, bound, ok, if_true]
      refine inv.proceed found begun calm ?_ (.inl ⟨bound.symm, rfl⟩) ?_ (fun _ => .inl rfl)
      · simp [pending, holds, released]
      · rintro rfl
        simp [Handler.holds] at released
    · simp only [State.checkForTeardownAndBeginNextWait, bound, ok, if_false,
        transitionToMustTeardown_bound bound (inv.unset bound), false_eq_true]
      refine inv.proceed found refused calm ?_ (.inr ⟨bound, _, rfl, rfl⟩) (by simp) ?_
      · simp [pending, holds, kept]
      · simp [pending]
  · simp only [State.checkForTeardownAndBeginNextWait, must, false_eq_true, if_false]
    refine inv.proceed found refused calm ?_ (.inl ⟨rfl, rfl⟩) (fun _ => by simp [must]) ?_
    · simp [holds, kept]
    · simp [pending]

/-- `PerformTeardown` begins: whoever calls it hands its right over to it. -/
lemma Inv.perform (untorn : st.teardowns = []) (pending : st.waitPending = false)
    (handed : handlers.countP Handler.holds + starters.countP Starter.holds = 0)
    (started : starters ≠ [] → st.starters ≠ [])
    (decided : info = none → st.lifecycle ≠ .bound) : Inv { st with
      handlers := handlers, starters := starters
      keepAlive := false, teardowns := [.begun info] } := by
  have torn : ¬st.lifecycle = .torndown := by simp [inv.torn, untorn]
  refine { inv with
    token := ?token, alive := rfl, torn := by simp [torn], reported := by simp,
    decided := ?decided, awaited := fun now => (by simp [pending] at now),
    asked := fun _ => .inr (.inr ⟨info, by simp⟩) }
  case token =>
    rw [pending]
    simpa using handed
  case decided =>
    rintro (mem | begun | again)
    · have positive : 0 < handlers.countP Handler.holds :=
        countP_pos_iff.mpr ⟨_, mem, rfl⟩
      omega
    · have same : info = none := by simpa [eq_comm] using begun
      exact decided same
    · exact inv.decided (.inr (.inr (started again)))

private lemma performTeardown_keeps (found : st.handlers[handler]? = some (.tearing info)) :
    Inv ((st.setHandler handler .returned).performTeardown info) := by
  obtain ⟨pending, untorn, _, _⟩ := inv.handler_alone found rfl
  have count := countP_set_add found .returned Handler.holds
  have equation : (st.setHandler handler .returned).performTeardown info =
      { st with
        handlers := st.handlers.set handler .returned, starters := st.starters
        keepAlive := false, teardowns := [.begun info] } := by
    simp [State.performTeardown, State.setHandler, untorn]
  rw [equation]
  refine inv.perform untorn pending ?_ id ?_
  · simp only [Handler.holds, if_true, false_eq_true, if_false] at count
    omega
  · rintro rfl
    exact inv.decided (.inl (mem_of_getElem? found))

private lemma runTask_keeps (found : st.starters[starter]? = some (.cancelled true)) :
    Inv (((st.check st.keepAlive).setStarter starter .finished).performTeardown none) := by
  have token := inv.token
  have mem := mem_of_getElem? found
  have positive : 0 < st.starters.countP Starter.holds :=
    countP_pos_iff.mpr ⟨_, mem, rfl⟩
  have count := countP_set_add found .finished Starter.holds
  have untorn : st.teardowns = [] := length_eq_zero_iff.mp (by omega)
  have pending : st.waitPending = false := by
    by_contra pending
    rw [eq_true_of_ne_false pending, toNat_true] at token
    omega
  have equation :
      ((st.check st.keepAlive).setStarter starter .finished).performTeardown none =
      { st with
        handlers := st.handlers, starters := st.starters.set starter .finished
        keepAlive := false, teardowns := [.begun none] } := by
    simp [State.performTeardown, State.setStarter, State.check, inv.alive, untorn]
  rw [equation]
  refine inv.perform untorn pending ?_ (fun _ => ne_nil_of_mem mem) ?_
  · simp only [Starter.holds, if_true, false_eq_true, if_false] at count
    omega
  · exact fun _ => inv.decided (.inr (.inr (ne_nil_of_mem mem)))

/-- The first locked section of `StartTeardownWithInfo`, when it decides. -/
lemma Inv.decide (bound : st.lifecycle = .bound) (info : UnbindInfo) : Inv { st with
      lifecycle := .mustTeardown info, firstInfo := some info, requested := true
      starters := st.starters ++ [.posting] } := by
  have token := inv.token
  have untorn : ¬∃ info, .finished info ∈ st.teardowns := by simp [← inv.torn, bound]
  refine { inv with
    token := ?token, begun := by simp, torn := by simpa using untorn, unset := by simp,
    recorded := ?recorded, reported := fun info finished => absurd ⟨info, finished⟩ untorn,
    decided := fun _ => by simp, awaited := ?awaited, asked := fun _ => .inl (by simp) }
  case token => simpa [Starter.holds] using token
  case recorded =>
    rintro _ same
    cases same
    rfl
  case awaited => exact fun _ _ => .inl ⟨.posting, by simp, rfl⟩

private lemma postTask_keeps (found : st.starters[starter]? = some .posting) :
    Inv (st.setStarter starter (if st.isShutdown then .postFailed else .cancelling)) := by
  have token := inv.token
  have unbound := inv.decided (.inr (.inr (ne_nil_of_mem (mem_of_getElem? found))))
  have inside := (List.getElem?_eq_some_iff.mp found).1
  cases shutdown : st.isShutdown with
  | true =>
    have count := countP_set_add found .postFailed Starter.holds
    refine { inv with
      token := ?_, decided := fun _ => unbound, awaited := fun _ _ => .inr shutdown }
    simp only [Starter.holds, false_eq_true, if_false, Nat.add_zero] at count
    simpa [State.setStarter, count] using token
  | false =>
    have count := countP_set_add found .cancelling Starter.holds
    refine { inv with token := ?_, decided := fun _ => unbound, awaited := ?_ }
    · simp only [Starter.holds, false_eq_true, if_false, Nat.add_zero] at count
      simpa [State.setStarter, count] using token
    · exact fun _ _ => .inl ⟨.cancelling, mem_set inside _, rfl⟩

private lemma cancelWait_keeps (found : st.starters[starter]? = some .cancelling) :
    Inv { st.setStarter starter (.cancelled st.waitPending) with waitPending := false } := by
  have token := inv.token
  have count := countP_set_add found (.cancelled st.waitPending) Starter.holds
  have unbound := inv.decided (.inr (.inr (ne_nil_of_mem (mem_of_getElem? found))))
  refine { inv with
    token := ?_, decided := fun _ => unbound, awaited := fun now => (by simp at now) }
  cases pending : st.waitPending <;>
    simp_all [Starter.holds, State.setStarter]
  omega

private lemma taskReturns_keeps (found : st.starters[starter]? = some (.cancelled false)) :
    Inv (st.setStarter starter .finished) := by
  have token := inv.token
  have count := countP_set_add found .finished Starter.holds
  have unbound := inv.decided (.inr (.inr (ne_nil_of_mem (mem_of_getElem? found))))
  refine { inv with token := ?_, decided := fun _ => unbound, awaited := ?_ }
  · simp only [Starter.holds, false_eq_true, if_false, Nat.add_zero] at count
    simpa [State.setStarter, count] using token
  · intro pending unbound
    obtain active | shutdown := inv.awaited pending unbound
    · obtain ⟨other, mem, active⟩ := active
      refine .inl ⟨other, mem_set_of_ne found _ ?_ mem, active⟩
      rintro rfl
      simp [Starter.isActive] at active
    · exact .inr shutdown

private lemma finishTeardown_keeps (found : st.teardowns[teardown]? = some (.begun info)) :
    Inv (st.finishTeardown teardown info) := by
  have token := inv.token
  have mem := mem_of_getElem? found
  -- This is the only call of `PerformTeardown`, so the binding is not torn down yet.
  obtain ⟨only, single⟩ : ∃ only, st.teardowns = [only] := by
    apply length_eq_one_iff.mp
    have positive := length_pos_of_mem mem
    omega
  obtain rfl : .begun info = only := by simpa [single] using mem
  obtain rfl : teardown = 0 := by
    have inside := (List.getElem?_eq_some_iff.mp found).1
    simpa [single] using inside
  have untorn : st.lifecycle ≠ .torndown := by simp [inv.torn, single]
  have stored : ∃ stored, st.finishTeardown 0 info = { st with
      lifecycle := .torndown, firstInfo := some stored, teardowns := [.finished stored] } := by
    cases lifecycle : st.lifecycle with
    | created => exact absurd lifecycle inv.begun
    | torndown => exact absurd lifecycle untorn
    | mustTeardown stored =>
      have recorded := inv.recorded stored lifecycle
      cases info <;>
        simp [State.finishTeardown, State.transitionToMustTeardown, lifecycle, single, ← recorded]
    | bound =>
      cases info with
      | none => exact absurd lifecycle (inv.decided (.inr (.inl mem)))
      | some info =>
        simp [State.finishTeardown,
          transitionToMustTeardown_bound lifecycle (inv.unset lifecycle), single]
  obtain ⟨stored, equation⟩ := stored
  rw [equation]
  have pending : st.waitPending = false := by
    by_contra pending
    rw [eq_true_of_ne_false pending, toNat_true, single, length_singleton] at token
    omega
  refine { inv with
    token := ?token, alive := ?alive, begun := by simp, torn := by simp, unset := by simp,
    recorded := by simp, reported := by simp, decided := fun _ => by simp,
    awaited := fun now => (by simp [pending] at now), asked := fun _ => .inl (by simp) }
  case token => simpa [single] using token
  case alive => simpa [single] using inv.alive

end

private lemma afterDispatch_holds : (afterDispatch error).holds = true := by
  cases error with
  | none => rfl
  | some error =>
    unfold afterDispatch
    dsimp only
    split <;> rfl

lemma afterDispatch_ne : afterDispatch error ≠ .tearing none := by
  cases error with
  | none => simp [afterDispatch]
  | some error =>
    unfold afterDispatch
    dsimp only
    split <;> simp

lemma step_keeps (inv : Inv st) (moved : step st label = some next) : Inv next := by
  cases label with
  | message =>
    obtain ⟨⟨pending, -⟩, rfl⟩ := of_guard moved
    have arrived : Inv { st with
        waitPending := false, handlers := st.handlers ++ [.upcall]
        requested := st.requested } :=
      inv.arrive pending rfl (by simp) .inl
    have untorn := (inv.wait_alone pending).1
    simpa [State.check, inv.alive, untorn] using arrived
  | waitFailure info =>
    obtain ⟨pending, rfl⟩ := of_guard moved
    have arrived : Inv { st with
        waitPending := false, handlers := st.handlers ++ [.tearing (some info)]
        requested := true } :=
      inv.arrive pending rfl (by simp) (fun _ => .inr ⟨_, rfl⟩)
    have untorn := (inv.wait_alone pending).1
    simpa [State.check, inv.alive, untorn] using arrived
  | enableNextDispatch handler status | beginNextWait handler status =>
    obtain ⟨⟨found, -⟩, rfl⟩ := of_guard moved
    exact recheck_keeps inv found (by simp) rfl rfl rfl status
  | dispatchReturns handler =>
    simp only [step] at moved
    split at moved <;> cases moved <;> rename_i found
    · exact inv.proceed found _ (by simp) (by rw [afterDispatch_holds]; rfl)
        (.inl ⟨rfl, rfl⟩) (fun same => absurd same (afterDispatch_ne))
        (fun pending => .inr ⟨rfl, pending⟩)
    · exact inv.proceed found _ (by simp) (by simp [Handler.holds]) (.inl ⟨rfl, rfl⟩) (by simp)
        (fun pending => .inr ⟨rfl, pending⟩)
    · exact inv.proceed found _ (by simp) (by rfl)
        (.inl ⟨rfl, rfl⟩) (fun same => absurd same (afterDispatch_ne))
        (fun pending => .inr ⟨rfl, pending⟩)
  | performTeardown handler =>
    simp only [step] at moved
    split at moved <;> cases moved
    rename_i found
    exact performTeardown_keeps inv found
  | startTeardownWithInfo info =>
    simp only [step] at moved
    split at moved
    next lifecycle =>
      cases moved
      exact { inv with asked := fun _ => .inl (by simp [lifecycle]) }
    next lifecycle =>
      cases moved
      exact { inv with asked := fun _ => .inl (by simp [lifecycle]) }
    · exact absurd ‹_› inv.begun
    next lifecycle =>
      cases moved
      rw [transitionToMustTeardown_bound lifecycle (inv.unset lifecycle)]
      exact inv.decide lifecycle info
  | postTask starter =>
    obtain ⟨found, rfl⟩ := of_guard moved
    exact postTask_keeps inv found
  | cancelWait starter =>
    obtain ⟨found, rfl⟩ := of_guard moved
    exact cancelWait_keeps inv found
  | runTask starter =>
    simp only [step] at moved
    split at moved <;> cases moved <;> rename_i found
    · exact runTask_keeps inv found
    · exact taskReturns_keeps inv found
  | finishTeardown =>
    simp only [step] at moved
    split at moved <;> cases moved
    rename_i found
    exact finishTeardown_keeps inv found
  | shutdown =>
    cases moved
    exact { inv with awaited := fun _ _ => .inr rfl }

/-! ## Whole runs -/

def Teardown.isFinished : Teardown → Bool
  | .begun _ => false
  | .finished _ => true

/-- Every handler, every call of `StartTeardownWithInfo` with its task and
every call of `PerformTeardown` has returned, and a dispatcher that was shut
down has run the handler of its pending wait. -/
def Quiescent (st : State) : Prop :=
  (∀ handler ∈ st.handlers, handler = .returned) ∧
  (∀ starter ∈ st.starters, starter = .postFailed ∨ starter = .finished) ∧
  (∀ teardown ∈ st.teardowns, teardown.isFinished = true) ∧
  ¬(st.isShutdown = true ∧ st.waitPending = true)

instance (st : State) : Decidable (Quiescent st) :=
  inferInstanceAs (Decidable (_ ∧ _))

lemma Inv.quiescent (inv : Inv st) (quiescent : Quiescent st)
    (requested : st.requested = true) : ∃ info, st.teardowns = [.finished info] := by
  obtain ⟨handlers, starters, teardowns, woken⟩ := quiescent
  have unbound : st.lifecycle ≠ .bound := by
    rcases inv.asked requested with unbound | ⟨info, mem⟩ | ⟨info, mem⟩
    · exact unbound
    · cases handlers _ mem
    · cases teardowns _ mem
  have pending : st.waitPending = false := by
    by_contra pending
    have waiting := eq_true_of_ne_false pending
    rcases inv.awaited waiting unbound with ⟨starter, mem, active⟩ | shutdown
    · rcases starters starter mem with rfl | rfl <;> cases active
    · exact woken ⟨shutdown, waiting⟩
  have unheld : st.handlers.countP Handler.holds = 0 := by
    rw [countP_eq_zero]
    intro handler mem
    rw [handlers handler mem]
    simp [Handler.holds]
  have uncancelled : st.starters.countP Starter.holds = 0 := by
    rw [countP_eq_zero]
    intro starter mem
    rcases starters starter mem with rfl | rfl <;> simp [Starter.holds]
  have token := inv.token
  rw [pending, toNat_false] at token
  obtain ⟨only, single⟩ := length_eq_one_iff.mp (by omega : st.teardowns.length = 1)
  cases only with
  | begun info => cases teardowns (.begun info) (by simp [single])
  | finished info => exact ⟨info, single⟩

theorem asyncBinding_teardown (ran : run step {} labels = some st) :
    st.teardowns.length ≤ 1 ∧ st.lateUpcalls = 0 ∧
    (∀ info, .finished info ∈ st.teardowns → st.firstInfo = some info) ∧
    st.failedAsserts = 0 ∧
    (Quiescent st → st.requested = true → ∃ info, st.teardowns = [.finished info]) := by
  have inv : Inv st := run_keeps (fun _ _ _ inv stepped => step_keeps inv stepped) inv_init ran
  have token := inv.token
  exact ⟨by omega, inv.onTime, inv.reported, inv.asserts, inv.quiescent⟩

/-- A handler begins the next wait early and a second one runs beside it; the
user asks for the teardown while the second is in its up-call, so the
cancellation comes too late and the second handler tears down. -/
def race : List Label :=
  [.message, .enableNextDispatch 0 0, .message, .startTeardownWithInfo .unbind, .postTask 0,
    .cancelWait 0, .shutdown, .dispatchReturns 1 none, .beginNextWait 1 (-20),
    .runTask 0, .performTeardown 1, .finishTeardown 0, .dispatchReturns 0 none]

theorem asyncBinding_teardown_race :
    ∃ st, run step {} race = some st ∧ Quiescent st ∧ st.requested = true ∧
      st.firstInfo = some .unbind ∧ st.failedAsserts = 0 ∧
      ∃ info, st.teardowns = [.finished info] := by
  obtain ⟨st, ran, quiescent, requested, first⟩ : ∃ st, run step {} race = some st ∧
      Quiescent st ∧ st.requested = true ∧ st.firstInfo = some .unbind :=
    ⟨_, rfl, by decide, rfl, rfl⟩
  obtain ⟨-, -, -, asserts, finished⟩ := asyncBinding_teardown ran
  exact ⟨st, ran, quiescent, requested, first, asserts, finished quiescent requested⟩

end FuchsiaSdk.AsyncBinding
