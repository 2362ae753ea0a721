import FuchsiaSdk.Machine

/-! `async_patterns::internal::TaskQueue` (`task_queue.cc`, `task_queue.h`).
One step is one section under `mutex_`, one hand-over by the dispatcher, or the
run or the deletion of one task of a local list. The dispatcher is synchronized:
`OnWake` and `Stop` are on its one thread, `Stop` possibly called by the task
that `OnWake` is running, while `Add` is called from anywhere.

Tasks are named by the order in which their `Add` calls took the lock. A failed
assertion is counted and the code goes on, so that the count says whether one
ever fires. -/
namespace FuchsiaSdk.TaskQueue
open Machine List

abbrev TaskId : Type := Nat

/-- Where the dispatcher thread stands with a wake. -/
inductive Wake where
  | idle
  /-- Taken off the dispatcher's list, `OnWake` not yet in its locked section.
  The flag says that the status is `ZX_OK`. -/
  | delivered (ok : Bool)
  /-- `RunTasks` on the harvested list: the task inside `Run`, and the rest. -/
  | running (current : Option TaskId) (rest : List TaskId)
  /-- `DropTasks` on the harvested list. -/
  | dropping (rest : List TaskId)
  deriving DecidableEq, Repr

structure State where
  taskList : List TaskId := []
  stopped : Bool := false
  wakePending : Bool := false
  /-- The dispatcher holds the posted `async_task_t`. -/
  posted : Bool := false
  isShutdown : Bool := false
  wake : Wake := .idle
  /-- The local list of the `Stop` call under way. -/
  stopping : Option (List TaskId) := none
  /-- The local lists of all `Add` calls, and the tasks they did not take. -/
  dropping : List TaskId := []
  gone : Bool := false
  -- History: the tasks given to `Add`, deleted and run so far, whether `Stop` has returned,
  -- tasks started after that, and assertions that fired.
  added : Nat := 0
  destroyed : List TaskId := []
  runs : List TaskId := []
  stopReturned : Bool := false
  lateRuns : Nat := 0
  failedAsserts : Nat := 0
  deriving DecidableEq, Repr

inductive Label where
  | add
  | dropAdded (task : TaskId)
  | deliver
  | onWake
  | runNext
  | finishTask
  | dropNext
  | returnOnWake
  | stop
  | stopDrop
  | stopReturn
  | shutdown
  | destroyQueue
  deriving DecidableEq, Repr

namespace State

/-- `ZX_ASSERT` and `ZX_DEBUG_ASSERT`. -/
def check (st : State) (holds : Bool) : State :=
  { st with failedAsserts := Machine.assert st.failedAsserts holds }

/-- `WakeDispatcher`. A post fails with `ZX_ERR_BAD_STATE` after shutdown, and
only then. -/
def wakeDispatcher (st : State) : Bool × State :=
  if st.wakePending then (true, st)
  else if st.isShutdown then (false, { st with wakePending := false })
  else (true, { st with posted := true, wakePending := true })

/-- `CancelWakeDispatcher`. Cancelling succeeds iff the task is still posted. -/
def cancelWakeDispatcher (st : State) : State :=
  if !st.wakePending then st
  else { st.check st.posted with posted := false, wakePending := false }

def stopLocked (st : State) : State :=
  cancelWakeDispatcher { st.check (!st.stopped) with stopped := true }

/-- The locked section of `Add`. -/
def add (st : State) : State :=
  let task := st.added
  let st := { st with added := st.added + 1 }
  if st.stopped then { st with dropping := task :: st.dropping }
  else
    let (ok, st) := wakeDispatcher { st with taskList := st.taskList ++ [task] }
    if ok then st
    else
      let st := st.stopLocked
      { st with taskList := [], dropping := st.taskList ++ st.dropping }

/-- The locked section of `Stop`. -/
def stop (st : State) : State :=
  if st.stopped then { st with stopReturned := true }
  else
    let st := st.stopLocked
    { st with taskList := [], stopping := some st.taskList }

/-- The locked section of `OnWake`. -/
def onWake (st : State) (ok : Bool) : State :=
  let st := { st with wakePending := false }
  if ok then { st with taskList := [], wake := .running none st.taskList }
  else
    let st := st.stopLocked
    { st with taskList := [], wake := .dropping st.taskList }

/-- `~TaskQueue`. -/
def destroyQueue (st : State) : State :=
  { ((st.check st.stopped).check (!st.wakePending)).check st.taskList.isEmpty with
    gone := true }

/-- The dispatcher thread is in `Stop`, above whatever `OnWake` was doing. -/
def inStop (st : State) : Bool := st.stopping.isSome

end State

def step (st : State) : Label → Option State
  | .add => if st.gone then none else some st.add
  | .dropAdded task =>
    if task ∈ st.dropping then
      some { st with
        dropping := st.dropping.erase task, destroyed := task :: st.destroyed }
    else none
  | .deliver =>
    if st.posted ∧ st.wake = .idle ∧ !st.inStop then
      some { st with posted := false, wake := .delivered (!st.isShutdown) }
    else none
  | .onWake =>
    match st.wake with
    | .delivered ok => some (st.onWake ok)
    | _ => none
  | .runNext =>
    match st.inStop, st.wake with
    | false, .running none (task :: rest) =>
      some { st with
        wake := .running (some task) rest
        runs := st.runs ++ [task]
        lateRuns := if st.stopReturned then st.lateRuns + 1 else st.lateRuns }
    | _, _ => none
  | .finishTask =>
    match st.inStop, st.wake with
    | false, .running (some task) rest =>
      some { st with wake := .running none rest, destroyed := task :: st.destroyed }
    | _, _ => none
  | .dropNext =>
    match st.inStop, st.wake with
    | false, .dropping (task :: rest) =>
      some { st with wake := .dropping rest, destroyed := task :: st.destroyed }
    | _, _ => none
  | .returnOnWake =>
    match st.inStop, st.wake with
    | false, .running none [] => some { st with wake := .idle }
    | false, .dropping [] => some { st with wake := .idle }
    | _, _ => none
  | .stop =>
    match st.wake with
    | .delivered _ => none
    | _ => if st.gone then none else some st.stop
  | .stopDrop =>
    match st.stopping with
    | some (task :: rest) =>
      some { st with stopping := some rest, destroyed := task :: st.destroyed }
    | _ => none
  | .stopReturn =>
    match st.stopping with
    | some [] => some { st with stopping := none, stopReturned := true }
    | _ => none
  | .shutdown => some { st with isShutdown := true }
  | .destroyQueue =>
    if st.stopReturned ∧ !st.inStop ∧ !st.gone then some st.destroyQueue else none

/-! ## What every step keeps -/

/-- Harvested tasks that `OnWake` has yet to run. -/
def Wake.toRun : Wake → List TaskId
  | .running _ rest => rest
  | _ => []

/-- Harvested tasks that `OnWake` has yet to delete. -/
def Wake.held : Wake → List TaskId
  | .running current rest => current.toList ++ rest
  | .dropping rest => rest
  | _ => []

def Wake.isDelivered : Wake → Bool
  | .delivered _ => true
  | _ => false

/-- Every task is in one place; the tasks run, about to be run and queued stand
in the order of their `Add`; and the wake is pending exactly while the
dispatcher has it. -/
structure Inv (st : State) : Prop where
  places : ∀ task, st.taskList.count task + st.dropping.count task +
    st.wake.held.count task + (st.stopping.getD []).count task +
    st.destroyed.count task = if task < st.added then 1 else 0
  order : (st.runs ++ st.wake.toRun ++ st.taskList).Pairwise (· < ·)
  bounded : ∀ task ∈ st.runs ++ st.wake.toRun ++ st.taskList, task < st.added
  pending : st.wakePending = (st.posted || st.wake.isDelivered)
  once : st.posted = true → st.wake.isDelivered = false
  queued : st.taskList ≠ [] → st.wakePending = true
  silent : st.stopped = true → st.wakePending = false
  called : st.stopReturned = true ∨ st.stopping ≠ none → st.stopped = true
  after_stop : st.gone = true → st.stopped = true
  asserts : st.failedAsserts = 0

variable {st next : State} {label : Label}

lemma inv_init : Inv {} := by
  constructor <;> simp [Wake.held, Wake.toRun, Wake.isDelivered]

@[simp] lemma State.check_true : st.check true = st := rfl

/-- A stopped queue has nothing queued and nothing posted. -/
lemma Inv.stopped_empty (inv : Inv st) (stopped : st.stopped = true) : st.taskList = [] := by
  by_contra queued
  have pending := inv.queued queued
  rw [inv.silent stopped] at pending
  cases pending

/-- `StopLocked` on a queue that runs, outside the delivery of a wake: no
assertion fires and the posted wake is gone. -/
lemma stopLocked_eq (running : st.stopped = false) (pending : st.wakePending = st.posted) :
    st.stopLocked = { st with stopped := true, posted := false, wakePending := false } := by
  cases posted : st.posted <;>
    simp_all [State.stopLocked, State.cancelWakeDispatcher, State.check]

private lemma add_stopped (stopped : st.stopped = true) : st.add = { st with
      added := st.added + 1, dropping := st.added :: st.dropping } := by
  simp [State.add, stopped]

private lemma add_queued (running : st.stopped = false)
    (taken : st.wakePending = true ∨ st.isShutdown = false) : st.add = { st with
      added := st.added + 1
      taskList := st.taskList ++ [st.added]
      posted := st.posted || !st.wakePending
      wakePending := true } := by
  by_cases pending : st.wakePending = true
  · simp [State.add, State.wakeDispatcher, running, pending]
  · have opened : st.isShutdown = false := taken.resolve_left pending
    simp [State.add, State.wakeDispatcher, running, pending, opened]

private lemma add_refused (running : st.stopped = false) (shutdown : st.isShutdown = true)
    (pending : st.wakePending = false) (posted : st.posted = false) : st.add = { st with
      added := st.added + 1
      stopped := true
      taskList := []
      dropping := st.taskList ++ [st.added] ++ st.dropping } := by
  simp [State.add, State.wakeDispatcher, running, shutdown, pending, stopLocked_eq, posted]

section

variable (inv : Inv st)
include inv

lemma Inv.order_added :
    (st.runs ++ st.wake.toRun ++ (st.taskList ++ [st.added])).Pairwise (· < ·) := by
  rw [← append_assoc, pairwise_append]
  refine ⟨inv.order, pairwise_singleton _ _, ?_⟩
  intro earlier mem _ last
  rw [mem_singleton.mp last]
  exact inv.bounded earlier mem

private lemma add_keeps : Inv st.add := by
  have places := inv.places
  have pending := inv.pending
  by_cases stopped : st.stopped = true
  · rw [add_stopped stopped]
    refine { inv with places := ?places, bounded := ?bounded }
    case places => intro task; have place := places task; grind
    case bounded => exact fun task mem => Nat.lt_succ_of_lt (inv.bounded task mem)
  have running : st.stopped = false := by simpa using stopped
  by_cases taken : st.wakePending = true ∨ st.isShutdown = false
  · rw [add_queued running taken]
    refine { inv with
      places := ?places, order := inv.order_added, bounded := ?bounded, pending := ?pending,
      once := ?once, queued := fun _ => rfl, silent := fun now => absurd now stopped }
    case places => intro task; have place := places task; grind
    case bounded =>
      intro task mem
      rw [← append_assoc, mem_append, mem_singleton] at mem
      rcases mem with mem | rfl
      · exact Nat.lt_succ_of_lt (inv.bounded task mem)
      · exact Nat.lt_succ_self _
    case pending => grind
    case once => have once := inv.once; grind
  · have refused : st.wakePending = false ∧ st.isShutdown = true := by simpa using taken
    obtain ⟨idle, shutdown⟩ := refused
    rw [idle, eq_comm, Bool.or_eq_false_iff] at pending
    rw [add_refused running shutdown idle pending.1]
    refine { inv with
      places := ?places, order := ?order, bounded := ?bounded,
      queued := fun queued => absurd rfl queued, silent := fun _ => idle,
      called := fun _ => rfl, after_stop := fun _ => rfl }
    case places => intro task; have place := places task; grind
    case order => exact inv.order.sublist (by simp)
    case bounded =>
      intro task mem
      refine Nat.lt_succ_of_lt (inv.bounded task ?_)
      exact mem_append_left _ (by simpa using mem)

private lemma stop_keeps (outside : st.wake.isDelivered = false) : Inv st.stop := by
  by_cases stopped : st.stopped = true
  · rw [State.stop, if_pos stopped]
    exact { inv with called := fun _ => stopped }
  have running : st.stopped = false := by simpa using stopped
  have pending : st.wakePending = st.posted := by rw [inv.pending, outside, Bool.or_false]
  have fresh : st.stopping = none := by
    by_contra under
    exact stopped (inv.called (.inr under))
  have equation : st.stop = { st with
      stopped := true, posted := false, wakePending := false
      taskList := [], stopping := some st.taskList } := by
    rw [State.stop, if_neg stopped, stopLocked_eq running pending]
  have places := inv.places
  rw [equation]
  refine { inv with
    places := ?places, order := ?order, bounded := ?bounded, pending := ?pending,
    once := fun now => (by simp at now), queued := fun queued => absurd rfl queued,
    silent := fun _ => rfl, called := fun _ => rfl, after_stop := fun _ => rfl }
  case places =>
    intro task
    have place := places task
    rw [fresh] at place
    simp at place ⊢
    omega
  case order => exact inv.order.sublist (by simp)
  case bounded =>
    intro task mem
    exact inv.bounded task (mem_append_left _ (by simpa using mem))
  case pending => simp [outside]

/-- A wake is only delivered to a queue that nobody stopped. -/
lemma Inv.delivered_running (delivered : st.wake = .delivered ok) : st.stopped = false := by
  have awaited : st.wakePending = true := by simp [inv.pending, delivered, Wake.isDelivered]
  by_contra stopped
  rw [inv.silent (by simpa using stopped)] at awaited
  cases awaited

private lemma onWake_keeps (delivered : st.wake = .delivered ok) : Inv (st.onWake ok) := by
  have places := inv.places
  have order := inv.order
  have bounded := inv.bounded
  have running := inv.delivered_running delivered
  have taken : st.posted = false := by
    by_contra posted
    have := inv.once (by simpa using posted)
    simp [delivered, Wake.isDelivered] at this
  rw [delivered] at places order bounded
  simp only [Wake.held, Wake.toRun, append_nil, count_nil] at places bounded
  cases ok with
  | true =>
    simp only [State.onWake, if_true]
    refine { inv with
      places := ?places, order := ?order, bounded := ?bounded, pending := ?pending,
      once := fun _ => rfl, queued := fun queued => absurd rfl queued, silent := fun _ => rfl }
    case places => intro task; have place := places task; simp [Wake.held]; omega
    case order => simpa [Wake.toRun] using order
    case bounded => simpa [Wake.toRun] using bounded
    case pending => simp [taken, Wake.isDelivered]
  | false =>
    have equation : st.onWake false = { st with
        stopped := true, posted := false, wakePending := false
        taskList := [], wake := .dropping st.taskList } := by
      simp [State.onWake, stopLocked_eq, running, taken]
    rw [equation]
    refine { inv with
      places := ?places, order := ?order, bounded := ?bounded, pending := ?pending,
      once := fun _ => rfl, queued := fun queued => absurd rfl queued, silent := fun _ => rfl,
      called := fun _ => rfl, after_stop := fun _ => rfl }
    case places => intro task; have place := places task; simp [Wake.held]; omega
    case order => exact order.sublist (by simp [Wake.toRun])
    case bounded =>
      intro task mem
      exact bounded task (mem_append_left _ (by simpa [Wake.toRun] using mem))
    case pending => simp [Wake.isDelivered]

/-- The assertions of `~TaskQueue` hold once the queue is stopped. -/
lemma destroyQueue_eq (stopped : st.stopped = true) :
    st.destroyQueue = { st with gone := true } := by
  simp [State.destroyQueue, stopped, inv.silent stopped, inv.stopped_empty stopped]

/-- `OnWake` starts, deletes or drops a task of its list, or returns. -/
lemma Inv.rewake (before : st.wake.isDelivered = false) (after : wake.isDelivered = false)
    (moved : ∀ task, wake.held.count task + destroyed.count task =
      st.wake.held.count task + st.destroyed.count task)
    (order : runs ++ wake.toRun = st.runs ++ st.wake.toRun) :
    Inv { st with wake := wake, destroyed := destroyed, runs := runs, lateRuns := late } := by
  have pending := inv.pending
  refine { inv with
    places := ?places, order := ?order, bounded := ?bounded, pending := ?pending,
    once := fun _ => after }
  case places =>
    intro task
    have place := inv.places task
    have same := moved task
    dsimp only
    omega
  case order => simpa only [order] using inv.order
  case bounded => simpa only [order] using inv.bounded
  case pending => rw [pending, before, after]

lemma step_keeps (moved : step st label = some next) : Inv next := by
  have places := inv.places
  cases label with
  | add =>
    simp only [step] at moved
    split at moved <;> cases moved
    exact add_keeps inv
  | dropAdded task =>
    obtain ⟨mem, rfl⟩ := of_guard moved
    refine { inv with places := ?_ }
    intro other
    have place := places other
    have present := count_pos_iff.mpr mem
    rw [count_erase, count_cons]
    grind
  | deliver =>
    obtain ⟨⟨posted, idle, -⟩, rfl⟩ := of_guard moved
    have order := inv.order
    have bounded := inv.bounded
    have pending := inv.pending
    rw [idle] at places order bounded
    rw [posted, Bool.true_or] at pending
    exact { inv with
      places := places, order := order, bounded := bounded, pending := pending,
      once := fun again => (by simp at again) }
  | onWake =>
    simp only [step] at moved
    split at moved <;> cases moved
    exact onWake_keeps inv ‹_›
  | runNext =>
    simp only [step] at moved
    split at moved <;> cases moved
    rename_i found
    exact inv.rewake (by rw [found]; rfl) rfl (by simp [found, Wake.held])
      (by simp [found, Wake.toRun])
  | finishTask | dropNext =>
    simp only [step] at moved
    split at moved <;> cases moved
    rename_i found
    exact inv.rewake (by rw [found]; rfl) rfl
      (by intro task; simp [found, Wake.held, count_cons]; omega)
      (by simp [found, Wake.toRun])
  | returnOnWake =>
    simp only [step] at moved
    split at moved
    case h_3 => cases moved
    all_goals
      rename_i found
      cases moved
      exact inv.rewake (by rw [found]; rfl) rfl (by simp [found, Wake.held])
        (by simp [found, Wake.toRun])
  | stop =>
    simp only [step] at moved
    split at moved
    · cases moved
    rename_i outside
    split at moved <;> cases moved
    refine stop_keeps inv ?_
    cases wake : st.wake with
    | delivered ok => exact absurd wake (outside ok)
    | idle | running | dropping => rfl
  | stopDrop | stopReturn =>
    simp only [step] at moved
    split at moved <;> cases moved
    rename_i under
    refine { inv with places := ?_, called := fun _ => inv.called (.inr (by simp [under])) }
    intro task
    have place := places task
    rw [under] at place
    grind
  | shutdown =>
    cases moved
    exact { inv with }
  | destroyQueue =>
    obtain ⟨⟨returned, -⟩, rfl⟩ := of_guard moved
    have stopped := inv.called (.inl returned)
    rw [destroyQueue_eq inv stopped]
    exact { inv with after_stop := fun _ => stopped }

end

/-! ## Nothing runs after `Stop` -/

/-- The condition on a step: `Stop` is not called by a task behind which
`OnWake` still has harvested tasks to run. -/
def StopsAfterBatch (st : State) (label : Label) : Prop :=
  label = .stop → st.wake.toRun = []

instance (st : State) (label : Label) : Decidable (StopsAfterBatch st label) :=
  inferInstanceAs (Decidable (_ → _))

structure Halted (st : State) : Prop where
  batch : st.stopReturned = true ∨ st.stopping ≠ none → st.wake.toRun = []
  late : st.lateRuns = 0

/-- `Add` leaves alone what `OnWake` and `Stop` are doing. -/
private lemma add_frame : st.add.wake = st.wake ∧ st.add.stopping = st.stopping ∧
      st.add.stopReturned = st.stopReturned ∧ st.add.lateRuns = st.lateRuns := by
  unfold State.add State.wakeDispatcher State.stopLocked State.cancelWakeDispatcher State.check
  grind

private lemma stop_frame (st : State) : st.stop.wake = st.wake ∧ st.stop.lateRuns = st.lateRuns := by
  unfold State.stop State.stopLocked State.cancelWakeDispatcher State.check
  grind

private lemma onWake_frame : (st.onWake ok).stopping = st.stopping ∧
      (st.onWake ok).stopReturned = st.stopReturned ∧ (st.onWake ok).lateRuns = st.lateRuns := by
  unfold State.onWake State.stopLocked State.cancelWakeDispatcher State.check
  grind

private lemma halted_keeps (inv : Inv st) (halted : Halted st)
    (after : StopsAfterBatch st label) (moved : step st label = some next) : Halted next := by
  have batch := halted.batch
  have late := halted.late
  cases label with
  | add =>
    simp only [step] at moved
    split at moved <;> cases moved
    obtain ⟨wake, stopping, returned, lateRuns⟩ := add_frame
    exact ⟨by rw [wake, stopping, returned]; exact batch, lateRuns.trans late⟩
  | stop =>
    simp only [step] at moved
    split at moved
    · cases moved
    split at moved <;> cases moved
    obtain ⟨wake, lateRuns⟩ := stop_frame st
    exact ⟨fun _ => wake ▸ after rfl, lateRuns.trans late⟩
  | onWake =>
    simp only [step] at moved
    split at moved <;> cases moved
    rename_i ok delivered
    have uncalled : ¬(st.stopReturned = true ∨ st.stopping ≠ none) := by
      intro called
      have stopped := inv.called called
      rw [inv.delivered_running delivered] at stopped
      cases stopped
    obtain ⟨stopping, returned, lateRuns⟩ := onWake_frame
    refine ⟨?_, lateRuns.trans late⟩
    rw [stopping, returned]
    exact fun called => absurd called uncalled
  | runNext =>
    simp only [step] at moved
    split at moved <;> cases moved
    rename_i found
    have uncalled : ¬(st.stopReturned = true ∨ st.stopping ≠ none) := by
      intro called
      have empty := batch called
      simp [found, Wake.toRun] at empty
    refine ⟨fun called => absurd called uncalled, ?_⟩
    have running : ¬st.stopReturned = true := fun returned => uncalled (.inl returned)
    simp [running, late]
  | finishTask =>
    simp only [step] at moved
    split at moved <;> cases moved
    rename_i found
    rw [found] at batch
    exact ⟨batch, late⟩
  | dropNext =>
    simp only [step] at moved
    split at moved <;> cases moved
    exact ⟨fun _ => rfl, late⟩
  | returnOnWake =>
    simp only [step] at moved
    split at moved
    case h_3 => cases moved
    all_goals
      cases moved
      exact ⟨fun _ => rfl, late⟩
  | stopDrop | stopReturn =>
    simp only [step] at moved
    split at moved <;> cases moved
    rename_i under
    exact ⟨fun _ => batch (.inr (by simp [under])), late⟩
  | dropAdded =>
    obtain ⟨-, rfl⟩ := of_guard moved
    exact ⟨batch, late⟩
  | deliver =>
    obtain ⟨-, rfl⟩ := of_guard moved
    exact ⟨fun _ => rfl, late⟩
  | shutdown =>
    cases moved
    exact ⟨batch, late⟩
  | destroyQueue =>
    obtain ⟨⟨returned, -⟩, rfl⟩ := of_guard moved
    rw [destroyQueue_eq inv (inv.called (.inl returned))]
    exact ⟨batch, late⟩

/-! ## Whole runs -/

/-- Every thread is done with what it took out of the queue, and the
dispatcher has nothing of it left to deliver. -/
def Quiescent (st : State) : Prop :=
  st.posted = false ∧ st.wake = .idle ∧ st.stopping = none ∧ st.dropping = []

instance (st : State) : Decidable (Quiescent st) :=
  inferInstanceAs (Decidable (_ ∧ _))

lemma Inv.destroyed_once (inv : Inv st) (task : TaskId) : st.destroyed.count task ≤ 1 := by
  have place := inv.places task
  split at place <;> omega

lemma Inv.quiescent (inv : Inv st) (quiescent : Quiescent st) :
    ∀ task < st.added, st.destroyed.count task = 1 := by
  obtain ⟨posted, idle, unstopped, dropped⟩ := quiescent
  have silent : st.wakePending = false := by
    rw [inv.pending, posted, idle]
    rfl
  have empty : st.taskList = [] := by
    by_contra queued
    rw [inv.queued queued] at silent
    cases silent
  intro task added
  have place := inv.places task
  rw [empty, dropped, idle, unstopped, if_pos added] at place
  simpa [Wake.held] using place

/-- Only the last conjunct needs the condition: a `Stop` from within a batch
loses no task and trips no assertion, but what is left of the batch still
runs. -/
theorem taskQueue_delivery (ran : run step {} labels = some st) :
    (∀ task, st.destroyed.count task ≤ 1) ∧ st.runs.Nodup ∧ st.runs.Pairwise (· < ·) ∧
    st.failedAsserts = 0 ∧
    (Quiescent st → ∀ task < st.added, st.destroyed.count task = 1) ∧
    (Admissible step StopsAfterBatch {} labels → st.lateRuns = 0) := by
  have inv : Inv st := run_keeps (fun _ _ _ inv stepped => step_keeps inv stepped) inv_init ran
  have order : st.runs.Pairwise (· < ·) := inv.order.sublist (by simp [append_assoc])
  refine ⟨inv.destroyed_once, order.imp Nat.ne_of_lt, order, inv.asserts, inv.quiescent, ?_⟩
  intro after
  have keeps : ∀ st label next, Inv st ∧ Halted st → StopsAfterBatch st label →
      step st label = some next → Inv next ∧ Halted next :=
    fun _ _ _ holds here stepped =>
      ⟨step_keeps holds.1 stepped, halted_keeps holds.1 holds.2 here stepped⟩
  exact (run_invariant keeps ⟨inv_init, by simp, rfl⟩ after ran).2.late

/-- One task runs, two more are queued, the dispatcher shuts down and the
pending wake drops them; a later task is refused, then the owner goes away. -/
def orderly : List Label :=
  [.add, .deliver, .onWake, .runNext, .finishTask, .returnOnWake, .add, .add, .shutdown, .deliver,
    .onWake, .dropNext, .dropNext, .returnOnWake, .add, .dropAdded 3, .stop, .destroyQueue]

theorem taskQueue_delivery_orderly :
    ∃ st, run step {} orderly = some st ∧ Admissible step StopsAfterBatch {} orderly ∧
      Quiescent st ∧ st.added = 4 ∧ st.runs = [0] ∧
      (∀ task < st.added, st.destroyed.count task = 1) ∧ st.lateRuns = 0 := by
  obtain ⟨st, ran, quiescent, added, runs⟩ : ∃ st, run step {} orderly = some st ∧
      Quiescent st ∧ st.added = 4 ∧ st.runs = [0] := ⟨_, rfl, by decide, rfl, rfl⟩
  have after : Admissible step StopsAfterBatch {} orderly := by decide
  obtain ⟨-, -, -, -, finished, late⟩ := taskQueue_delivery ran
  exact ⟨st, ran, after, quiescent, added, runs, finished quiescent, late after⟩

/-- The first of two harvested tasks stops the queue, as when it destroys the
receiver: the second one runs although `Stop` has returned. -/
theorem stop_within_batch :
    ∃ before after,
      run step {} [.add, .add, .deliver, .onWake, .runNext, .stop, .stopReturn, .finishTask] =
        some before ∧ before.stopReturned = true ∧
      step before .runNext = some after ∧ after.runs = [0, 1] ∧ after.lateRuns = 1 := by
  exact ⟨_, _, rfl, rfl, rfl, rfl, rfl⟩

end FuchsiaSdk.TaskQueue
