import FuchsiaSdk.Machine
import FuchsiaSdk.TaskScheduler

/-! `fpromise::single_threaded_executor`. The thread of `run()` takes what is
runnable and waits on `wake_` while tasks are suspended; `schedule_task`,
`duplicate_ticket` and `resolve_ticket` are called by any threads. A step is one
section under `mutex_`, the notification or the deletion that follows it, a wake-up,
or the beginning of a call. After a failed assertion there is no further step. -/
namespace FuchsiaSdk.SingleThreadedExecutor
open Machine TaskScheduler

/-- Where a call stands. -/
inductive Call (T : Type) where
  /-- The call has begun, the lock is not yet taken. -/
  | scheduling (task : T)
  | duplicating (ticket : Ticket)
  | resolving (ticket : Ticket) (resumeTask : Bool)
  /-- The lock is released and `wake_.notify_one()` is next. -/
  | notifying
  /-- The lock is released and `delete this` is next. -/
  | deleting
  | done
  deriving DecidableEq, Repr

/-- Where the thread stands that owns the executor. -/
inductive Runner (T : Type) where
  /-- Not in `run()`. -/
  | outside
  /-- In `wait_for_runnable_tasks`, before it has the lock. -/
  | entering
  /-- In `wake_.wait`. -/
  | blocked
  /-- Woken, and to take the lock again. -/
  | woken
  | running (task : T) (rest : List T)
  /-- The task has returned, and its ticket is to be finalized. -/
  | finalizing (task : Option T) (rest : List T)
  /-- In `shutdown`, after its section. -/
  | deleting
  /-- The executor is destroyed. -/
  | closed
  deriving DecidableEq, Repr

variable {T : Type}

def Runner.Destroyed : Runner T → Prop
  | .deleting => True
  | .closed => True
  | _ => False

instance (runner : Runner T) : Decidable runner.Destroyed := by
  cases runner <;> unfold Runner.Destroyed <;> infer_instance

structure State (T : Type) where
  scheduler : Scheduler T := {}
  wasShutdown : Bool := false
  needWake : Bool := false
  currentTaskTicket : Ticket := 0
  runner : Runner T := .outside
  calls : List (Call T) := []
  /-- The tickets of the `suspended_task`s that exist and are not used by a call. -/
  handles : List Ticket := []
  /-- How often the dispatcher was deleted. -/
  deletions : Nat := 0
  /-- An assertion has failed. -/
  failed : Bool := false

inductive Label (T : Type) where
  | schedule (task : T)
  | duplicate (ticket : Ticket)
  | resolve (ticket : Ticket) (resumeTask : Bool)
  /-- A call goes on. -/
  | call (i : Nat)
  | run
  /-- The thread of `run()` takes the lock. -/
  | lock
  /-- `wake_.wait` returns without a notification. -/
  | wake
  /-- The task that runs calls `suspend_task`. -/
  | suspend
  /-- It returns, finished or pending. -/
  | finish (pending : Bool)
  /-- The destructor of the executor calls `shutdown`. -/
  | destroy
  | delete
  deriving DecidableEq, Repr

namespace State

variable (st : State T)

def fail : State T := { st with failed := true }

def setCall (i : Nat) (call : Call T) : State T :=
  { st with calls := st.calls.set i call }

/-- `wake_.notify_one()`. -/
def notify : State T :=
  match st.runner with
  | .blocked => { st with runner := .woken }
  | _ => st

/-- `wait_for_runnable_tasks`, from the lock to the end or to `wake_.wait`. -/
def waitForRunnableTasks : State T :=
  if st.wasShutdown then st.fail
  else
    let (scheduler, tasks) := st.scheduler.takeRunnableTasks
    match tasks with
    | task :: rest => { st with scheduler, runner := .running task rest }
    | [] =>
      if scheduler.hasSuspendedTasks then
        { st with scheduler, needWake := true, runner := .blocked }
      else { st with scheduler, runner := .outside }

/-- The loops of `run()`, after a task. -/
def nextTask (rest : List T) : Runner T :=
  match rest with
  | [] => .entering
  | task :: rest => .running task rest

/-- `run_task`, when the task returns. -/
def finishTask (task : T) (rest : List T) (pending : Bool) : State T :=
  if st.currentTaskTicket = 0 then { st with runner := nextTask rest }
  else { st with runner := .finalizing (if pending then some task else none) rest }

/-- `run_task`, its section. -/
def finalizeTask (task : Option T) (rest : List T) : State T :=
  if st.wasShutdown then st.fail
  else
    match st.scheduler.finalizeTicket st.currentTaskTicket task with
    | none => st.fail
    | some (scheduler, _) =>
      { st with scheduler, currentTaskTicket := 0, runner := nextTask rest }

def suspendCurrentTask : State T :=
  if st.wasShutdown then st.fail
  else if st.currentTaskTicket = 0 then
    let (ticket, scheduler) := st.scheduler.obtainTicket 2
    { st with scheduler, currentTaskTicket := ticket, handles := ticket :: st.handles }
  else
    match st.scheduler.duplicateTicket st.currentTaskTicket with
    | none => st.fail
    | some scheduler =>
      { st with scheduler, handles := st.currentTaskTicket :: st.handles }

def scheduleTask (i : Nat) (task : T) : State T :=
  if st.wasShutdown then st.fail
  else
    let scheduled := { st with scheduler := st.scheduler.scheduleTask task }
    if st.needWake then { scheduled with needWake := false }.setCall i .notifying
    else scheduled.setCall i .done

def duplicateTicket (i : Nat) (ticket : Ticket) : State T :=
  match st.scheduler.duplicateTicket ticket with
  | none => st.fail
  | some scheduler =>
    { st with scheduler, handles := ticket :: ticket :: st.handles }.setCall i .done

def resolveTicket (i : Nat) (ticket : Ticket) (resumeTask : Bool) : State T :=
  let resolved :=
    if resumeTask then (st.scheduler.resumeTaskWithTicket ticket).map Prod.fst
    else (st.scheduler.releaseTicket ticket).map Prod.fst
  match resolved with
  | none => st.fail
  | some scheduler =>
    let resolved := { st with scheduler }
    if st.wasShutdown then
      if st.needWake then st.fail
      else if scheduler.hasOutstandingTickets then resolved.setCall i .done
      else resolved.setCall i .deleting
    else if st.needWake && (scheduler.hasRunnableTasks || !scheduler.hasSuspendedTasks) then
      { resolved with needWake := false }.setCall i .notifying
    else resolved.setCall i .done

def shutdown : State T :=
  if st.wasShutdown then st.fail
  else
    match st.scheduler.takeAllTasks with
    | none => st.fail
    | some (scheduler, _) =>
      { st with
        scheduler
        wasShutdown := true
        runner := if scheduler.hasOutstandingTickets then .closed else .deleting }

/-- The next step of a call. A step on a dispatcher that is deleted may do anything; here
the call just ends. -/
def goOn (i : Nat) : Call T → Option (State T)
  | .done => none
  | .deleting => some ({ st with deletions := st.deletions + 1 }.setCall i .done)
  | .scheduling task =>
    if 0 < st.deletions then some (st.setCall i .done)
    else some (st.scheduleTask i task)
  | .duplicating ticket =>
    if 0 < st.deletions then some (st.setCall i .done)
    else some (st.duplicateTicket i ticket)
  | .resolving ticket resumeTask =>
    if 0 < st.deletions then some (st.setCall i .done)
    else some (st.resolveTicket i ticket resumeTask)
  | .notifying =>
    if 0 < st.deletions then some (st.setCall i .done)
    else some (st.notify.setCall i .done)

end State

def act (st : State T) : Label T → Option (State T)
  | .schedule task =>
    if st.runner.Destroyed then none
    else some { st with calls := st.calls ++ [.scheduling task] }
  | .duplicate ticket =>
    if ticket ∈ st.handles then
      some { st with
        handles := st.handles.erase ticket
        calls := st.calls ++ [.duplicating ticket] }
    else none
  | .resolve ticket resumeTask =>
    if ticket ∈ st.handles then
      some { st with
        handles := st.handles.erase ticket
        calls := st.calls ++ [.resolving ticket resumeTask] }
    else none
  | .call i => st.calls[i]?.bind (st.goOn i)
  | .run =>
    match st.runner with
    | .outside => some { st with runner := .entering }
    | _ => none
  | .lock =>
    match st.runner with
    | .entering => some st.waitForRunnableTasks
    | .woken => some { st with needWake := false }.waitForRunnableTasks
    | .finalizing task rest => some (st.finalizeTask task rest)
    | _ => none
  | .wake =>
    match st.runner with
    | .blocked => some { st with runner := .woken }
    | _ => none
  | .suspend =>
    match st.runner with
    | .running _ _ => some st.suspendCurrentTask
    | _ => none
  | .finish pending =>
    match st.runner with
    | .running task rest => some (st.finishTask task rest pending)
    | _ => none
  | .destroy =>
    match st.runner with
    | .outside => some st.shutdown
    | _ => none
  | .delete =>
    match st.runner with
    | .deleting => some { st with runner := .closed, deletions := st.deletions + 1 }
    | _ => none

def step (st : State T) (label : Label T) : Option (State T) :=
  if st.failed then none else act st label

/-! ## Wake-ups -/

/-- Nothing is left to do for a thread that waits. -/
def Idle (scheduler : Scheduler T) : Prop :=
  scheduler.hasRunnableTasks = false ∧ scheduler.hasSuspendedTasks = true

/-- The thread of `run()` waits although there is something for it to do, and nobody is
about to wake it. -/
def LostWakeUp (st : State T) : Prop :=
  st.runner = .blocked ∧ (∀ call ∈ st.calls, call ≠ .notifying) ∧
    (st.scheduler.hasRunnableTasks = true ∨ st.scheduler.hasSuspendedTasks = false)

/-- `run()` returns in this step. -/
def Returns (label : Label T) (next : State T) : Prop :=
  label = .lock ∧ next.runner = .outside

structure Awake (st : State T) : Prop where
  /-- Whoever waits and asks to be woken has nothing to do, … -/
  idle : st.runner = .blocked → st.needWake = true → Idle st.scheduler
  /-- … and whoever waits and no longer asks is about to be notified. -/
  notified : st.runner = .blocked → st.needWake = false → .notifying ∈ st.calls
  /-- Nobody waits on an executor that is being destroyed. -/
  destroyed : st.wasShutdown = true ∨ 0 < st.deletions ∨ .deleting ∈ st.calls → st.runner.Destroyed

lemma Awake.not_lost (awake : Awake st) : ¬ LostWakeUp st := by
  rintro ⟨blocked, silent, work⟩
  cases needed : st.needWake with
  | false => exact silent _ (awake.notified blocked needed) rfl
  | true =>
    obtain ⟨noRunnable, suspended⟩ := awake.idle blocked needed
    rcases work with runnable | finished
    · rw [noRunnable] at runnable
      cases runnable
    · rw [suspended] at finished
      cases finished

private lemma awake_start : Awake ({} : State T) :=
  ⟨nofun, nofun, fun gone => by simp at gone⟩

section

variable {st next : State T} {i : Nat} {call new : Call T}

/-- A thread that does not wait has nothing to lose. -/
lemma Awake.of_not_blocked (running : next.runner ≠ .blocked)
    (destroyed : next.wasShutdown = true ∨ 0 < next.deletions ∨ .deleting ∈ next.calls →
      next.runner.Destroyed) : Awake next :=
  ⟨fun blocked => absurd blocked running, fun blocked => absurd blocked running, destroyed⟩

lemma Awake.fail (awake : Awake st) : Awake st.fail :=
  ⟨awake.idle, awake.notified, awake.destroyed⟩

/-- An executor that is in use was not shut down. -/
lemma Awake.opened (awake : Awake st) (here : ¬ st.runner.Destroyed) :
    st.wasShutdown = false ∧ st.deletions = 0 ∧ .deleting ∉ st.calls := by
  refine ⟨?_, ?_, ?_⟩
  · exact Bool.eq_false_iff.mpr fun shut => here (awake.destroyed (.inl shut))
  · exact Nat.eq_zero_of_not_pos fun deleted => here (awake.destroyed (.inr (.inl deleted)))
  · exact fun deleting => here (awake.destroyed (.inr (.inr deleting)))

/-- A call that begins. -/
lemma Awake.begins (awake : Awake st) (handles : List Ticket) (quiet : call ≠ .deleting) :
    Awake { st with handles, calls := st.calls ++ [call] } where
  idle := awake.idle
  notified blocked needed := List.mem_append_left _ (awake.notified blocked needed)
  destroyed := by
    rintro (shut | deleted | deleting)
    · exact awake.destroyed (.inl shut)
    · exact awake.destroyed (.inr (.inl deleted))
    · rcases List.mem_append.mp deleting with before | new
      · exact awake.destroyed (.inr (.inr before))
      · exact absurd (List.mem_singleton.mp new).symm quiet

/-- Nobody comes to `delete this` by another move of a call. -/
lemma Awake.destroyed_set (awake : Awake st) (i : Nat) (new : Call T) (quiet : new ≠ .deleting)
    (gone : st.wasShutdown = true ∨ 0 < st.deletions ∨ .deleting ∈ st.calls.set i new) :
    st.runner.Destroyed := by
  rcases gone with shut | deleted | deleting
  · exact awake.destroyed (.inl shut)
  · exact awake.destroyed (.inr (.inl deleted))
  rcases List.mem_or_eq_of_mem_set deleting with before | isNew
  · exact awake.destroyed (.inr (.inr before))
  · exact absurd isNew.symm quiet

/-- A call goes on, on a dispatcher that nobody destroys. -/
lemma Awake.replies
    (awake : Awake st) (found : st.calls[i]? = some call) (apart : call ≠ .notifying)
    (quiet : new ≠ .deleting) (idle : st.runner = .blocked → needWake = true → Idle scheduler)
    (notified : st.runner = .blocked → needWake = false → st.needWake = false ∨ new = .notifying) :
    Awake { st with scheduler, needWake, handles, calls := st.calls.set i new } where
  idle := idle
  notified blocked silent := by
    rcases notified blocked silent with before | rfl
    · exact mem_set_of_ne found new apart.symm (awake.notified blocked before)
    · obtain ⟨inside, _⟩ := List.getElem?_eq_some_iff.mp found
      exact List.mem_set inside _
  destroyed := awake.destroyed_set i new quiet

/-- What happens to a destroyed executor wakes nobody. -/
lemma Awake.of_destroyed (destroyed : next.runner.Destroyed) : Awake next := by
  refine Awake.of_not_blocked ?_ fun _ => destroyed
  intro blocked
  rw [blocked] at destroyed
  exact destroyed

section

variable (awake : Awake st)
include awake

lemma Awake.scheduleTask (found : st.calls[i]? = some (.scheduling task)) :
    Awake (st.scheduleTask i task) := by
  unfold State.scheduleTask
  split
  · exact awake.fail
  split
  · exact awake.replies found nofun nofun (fun _ needed => nomatch needed) fun _ _ => .inr rfl
  rename_i unneeded
  exact awake.replies found nofun nofun (fun _ needed => absurd needed unneeded)
    fun _ silent => .inl silent

lemma Awake.duplicateTicket (found : st.calls[i]? = some (.duplicating ticket)) :
    Awake (st.duplicateTicket i ticket) := by
  unfold State.duplicateTicket
  split
  · exact awake.fail
  rename_i scheduler duplicated
  obtain ⟨runnable, suspended⟩ := duplicateTicket_tasks duplicated
  refine awake.replies found nofun nofun ?_ fun _ silent => .inl silent
  intro blocked needed
  obtain ⟨noRunnable, someSuspended⟩ := awake.idle blocked needed
  exact ⟨runnable.trans noRunnable, suspended.trans someSuspended⟩

lemma Awake.resolveTicket (found : st.calls[i]? = some (.resolving ticket resumeTask)) :
    Awake (st.resolveTicket i ticket resumeTask) := by
  unfold State.resolveTicket
  simp only
  split
  · exact awake.fail
  rename_i scheduler _
  split
  next shut =>
    have destroyed := awake.destroyed (.inl shut)
    split
    · exact awake.fail
    · split <;> exact Awake.of_destroyed destroyed
  · split
    · exact awake.replies found nofun nofun (fun _ needed => nomatch needed) fun _ _ => .inr rfl
    rename_i idle
    refine awake.replies found nofun nofun ?_ fun _ silent => .inl silent
    have settled : st.needWake = true → Idle scheduler := by simpa [Idle] using idle
    exact fun _ needed => settled needed

lemma Awake.notify : Awake (st.notify.setCall i .done) := by
  unfold State.notify
  split
  next blocked =>
    refine Awake.of_not_blocked nofun fun gone => ?_
    have destroyed := awake.destroyed_set i .done nofun gone
    rw [blocked] at destroyed
    exact destroyed
  next unblocked => exact Awake.of_not_blocked unblocked (awake.destroyed_set i .done nofun)

lemma Awake.goOn (found : st.calls[i]? = some call)
    (moved : st.goOn i call = some next) : Awake next := by
  have gone : 0 < st.deletions → Awake (st.setCall i .done) :=
    fun deleted => Awake.of_destroyed (awake.destroyed (.inr (.inl deleted)))
  cases call with
  | done => cases moved
  | deleting =>
    cases moved
    exact Awake.of_destroyed (awake.destroyed (.inr (.inr (List.mem_of_getElem? found))))
  | scheduling | duplicating | resolving | notifying =>
    simp only [State.goOn] at moved
    split at moved <;> cases moved
    · exact gone (by assumption)
    · first
      | exact awake.scheduleTask found
      | exact awake.duplicateTicket found
      | exact awake.resolveTicket found
      | exact awake.notify

/-- The thread of `run()` goes on without waiting. -/
lemma Awake.moves (here : ¬ st.runner.Destroyed)
    (running : next.runner ≠ .blocked) (shut : next.wasShutdown = st.wasShutdown)
    (deletions : next.deletions = st.deletions) (calls : next.calls = st.calls) : Awake next := by
  obtain ⟨open', alive, quiet⟩ := awake.opened here
  refine Awake.of_not_blocked running ?_
  rw [shut, deletions, calls, open', alive]
  rintro (impossible | impossible | deleting)
  · cases impossible
  · cases impossible
  · exact absurd deleting quiet

end

lemma nextTask_ne_blocked : State.nextTask rest ≠ .blocked := by
  cases rest <;> exact nofun

lemma Awake.waitForRunnableTasks (awake : Awake st) (here : ¬ st.runner.Destroyed) :
    Awake st.waitForRunnableTasks := by
  unfold State.waitForRunnableTasks
  split
  · exact awake.fail
  simp only
  split
  · exact awake.moves here nofun rfl rfl rfl
  split
  next suspended =>
    obtain ⟨open', alive, quiet⟩ := awake.opened here
    refine ⟨fun _ _ => ⟨rfl, suspended⟩, (fun _ silent => nomatch silent), ?_⟩
    rintro (shut | deleted | deleting)
    · exact absurd shut (by simp [open'])
    · exact absurd deleted (by simp [alive])
    · exact absurd deleting quiet
  · exact awake.moves here nofun rfl rfl rfl

lemma Awake.finalizeTask (awake : Awake st) (here : ¬ st.runner.Destroyed)
    (task : Option T) (rest : List T) : Awake (st.finalizeTask task rest) := by
  unfold State.finalizeTask
  split
  · exact awake.fail
  split
  · exact awake.fail
  · exact awake.moves here (nextTask_ne_blocked) rfl rfl rfl

lemma Awake.finishTask (awake : Awake st) (here : ¬ st.runner.Destroyed) (task : T)
    (rest : List T) (pending : Bool) : Awake (st.finishTask task rest pending) := by
  unfold State.finishTask
  split
  · exact awake.moves here (nextTask_ne_blocked) rfl rfl rfl
  · exact awake.moves here nofun rfl rfl rfl

lemma Awake.suspendCurrentTask (awake : Awake st) (here : ¬ st.runner.Destroyed)
    (running : st.runner ≠ .blocked) : Awake st.suspendCurrentTask := by
  unfold State.suspendCurrentTask
  split
  · exact awake.fail
  split
  · exact awake.moves here running rfl rfl rfl
  split
  · exact awake.fail
  · exact awake.moves here running rfl rfl rfl

lemma Awake.shutdown (awake : Awake st) : Awake st.shutdown := by
  unfold State.shutdown
  split
  · exact awake.fail
  split
  · exact awake.fail
  · refine Awake.of_destroyed ?_
    split <;> exact trivial

lemma act_of_step (moved : step st label = some next) : act st label = some next := by
  exact (Option.ite_none_left_eq_some.mp moved).2

lemma Awake.step (awake : Awake st) (moved : step st label = some next) : Awake next := by
  replace moved := act_of_step moved
  cases label with
  | schedule =>
    simp only [act, Option.ite_none_left_eq_some, Option.some.injEq] at moved
    obtain ⟨_, rfl⟩ := moved
    exact awake.begins _ nofun
  | duplicate | resolve =>
    obtain ⟨_, rfl⟩ := Machine.of_guard moved
    exact awake.begins _ nofun
  | call =>
    obtain ⟨call, found, moved⟩ := Option.bind_eq_some_iff.mp moved
    exact awake.goOn found moved
  | run =>
    simp only [act] at moved
    split at moved <;> cases moved
    rename_i outside
    exact awake.moves (by rw [outside]; exact id) nofun rfl rfl rfl
  | lock =>
    simp only [act] at moved
    split at moved <;> cases moved
    next entering => exact awake.waitForRunnableTasks (by rw [entering]; exact id)
    next woken =>
      have here : ¬ st.runner.Destroyed := by
        rw [woken]
        exact id
      have cleared : Awake { st with needWake := false } :=
        awake.moves here (by rw [woken]; exact nofun) rfl rfl rfl
      exact cleared.waitForRunnableTasks here
    next finalizing => exact awake.finalizeTask (by rw [finalizing]; exact id) _ _
  | wake =>
    simp only [act] at moved
    split at moved <;> cases moved
    rename_i blocked
    exact awake.moves (by rw [blocked]; exact id) nofun rfl rfl rfl
  | suspend =>
    simp only [act] at moved
    split at moved <;> cases moved
    rename_i running
    exact awake.suspendCurrentTask (by rw [running]; exact id) (by rw [running]; exact nofun)
  | finish =>
    simp only [act] at moved
    split at moved <;> cases moved
    rename_i running
    exact awake.finishTask (by rw [running]; exact id) _ _ _
  | destroy =>
    simp only [act] at moved
    split at moved <;> cases moved
    exact awake.shutdown
  | delete =>
    simp only [act] at moved
    split at moved <;> cases moved
    exact Awake.of_destroyed trivial

/-- `run()` returns when it has seen that no task is left. -/
private lemma returns_when_done (moved : step st label = some next) (returns : Returns label next) :
    st.scheduler.hasRunnableTasks = false ∧ st.scheduler.hasSuspendedTasks = false := by
  obtain ⟨rfl, outside⟩ := returns
  simp only [SingleThreadedExecutor.step, Option.ite_none_left_eq_some, act] at moved
  have waits : ∀ before : State T, before.runner ≠ .outside →
      before.waitForRunnableTasks.runner = .outside →
      before.scheduler.hasRunnableTasks = false ∧ before.scheduler.hasSuspendedTasks = false := by
    intro before elsewhere left
    unfold State.waitForRunnableTasks at left
    split at left
    · exact absurd left elsewhere
    simp only at left
    split at left
    · cases left
    rename_i none
    split at left
    · cases left
    rename_i unsuspended
    exact ⟨by simp [Scheduler.hasRunnableTasks, show before.scheduler.runnableTasks = [] from none],
      Bool.eq_false_iff.mpr unsuspended⟩
  obtain ⟨_, moved⟩ := moved
  split at moved <;> cases moved
  next entering => exact waits st (by rw [entering]; exact nofun) outside
  next woken => exact waits { st with needWake := false } (by rw [woken]; exact nofun) outside
  next finalizing =>
    unfold State.finalizeTask at outside
    split at outside
    · exact absurd (finalizing.symm.trans outside) nofun
    split at outside
    · exact absurd (finalizing.symm.trans outside) nofun
    rename_i rest _ _ _ _ _
    cases rest <;> cases outside

end

/-- Over every run, with any calls and any spurious wake-ups: the thread of `run()` is
never left waiting with something to do and nobody to wake it, and `run()` returns only
from a section that saw neither a runnable nor a suspended task. -/
theorem no_lost_wake_up (labels : List (Label T)) :
    Along step (fun st label next => ¬ LostWakeUp next ∧
      (Returns label next → st.scheduler.hasRunnableTasks = false ∧
        st.scheduler.hasSuspendedTasks = false)) {} labels := by
  refine along_keeps (fun _ _ _ awake stepped => Awake.step awake stepped) ?_ awake_start
  intro st label next awake stepped
  exact ⟨(awake.step stepped).not_lost, returns_when_done stepped⟩

end FuchsiaSdk.SingleThreadedExecutor
