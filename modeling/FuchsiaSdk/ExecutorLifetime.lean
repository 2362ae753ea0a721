import FuchsiaSdk.SingleThreadedExecutor

/-! Who keeps the dispatcher of a `single_threaded_executor` alive. The executor gives
it up in `shutdown`, every `suspended_task` holds a reference to its ticket, and the
last one to go deletes it. A call of `schedule_task` holds nothing, and neither does a
call that has left its section and has `wake_.notify_one()` still to do. -/
namespace FuchsiaSdk.ExecutorLifetime
open Machine TaskScheduler SingleThreadedExecutor List Option

variable {T : Type}

/-! ## Accounting for the tickets -/

/-- A call whose section is still to come keeps its ticket. -/
def keeps (ticket : Ticket) : Call T → Bool
  | .duplicating other => other = ticket
  | .resolving other _ => other = ticket
  | _ => false

def isDeleting : Call T → Bool
  | .deleting => true
  | _ => false

def runnerDeletes : Runner T → Nat
  | .deleting => 1
  | _ => 0

/-- The task that runs keeps a reference to its ticket until it is finalized. -/
def currentRefs (current ticket : Ticket) : Nat :=
  if current = ticket ∧ ticket ≠ 0 then 1 else 0

lemma currentRefs_zero : currentRefs 0 ticket = 0 :=
  if_neg fun both => both.2 both.1.symm

lemma currentRefs_self (nonzero : current ≠ 0) : currentRefs current current = 1 :=
  if_pos ⟨rfl, nonzero⟩

lemma currentRefs_of_ne (apart : ticket ≠ current) : currentRefs current ticket = 0 :=
  if_neg fun both => apart both.1.symm

/-- How many hold a reference to a ticket. -/
def holders (st : State T) (ticket : Ticket) : Nat :=
  st.handles.count ticket + st.calls.countP (keeps ticket) + currentRefs st.currentTaskTicket ticket

/-- How many have deleted the dispatcher or are about to. -/
def deleters (st : State T) : Nat :=
  st.deletions + st.calls.countP isDeleting + runnerDeletes st.runner

def Executes : Runner T → Prop
  | .running _ _ => True
  | .finalizing _ _ => True
  | _ => False

structure Inv (st : State T) : Prop where
  valid : Valid st.scheduler
  refs : ∀ ticket, st.scheduler.refs ticket = holders st ticket
  shut : st.wasShutdown = true ↔ st.runner.Destroyed
  current : st.currentTaskTicket ≠ 0 → Executes st.runner
  deleters : deleters st =
    if st.wasShutdown = true ∧ st.scheduler.hasOutstandingTickets = false then 1 else 0

lemma inv_start : Inv ({} : State T) where
  valid := valid_empty
  refs _ := by
    simp [Scheduler.refs, holders, currentRefs_zero]
  shut := by simp [Runner.Destroyed]
  current nonzero := absurd rfl nonzero
  deleters := rfl

section

variable {st next : State T} {i : Nat} {call new : Call T}

lemma Inv.fail (inv : Inv st) : Inv st.fail :=
  { inv with }

/-- As long as somebody holds a ticket, it is outstanding. -/
lemma Inv.outstanding (inv : Inv st) (held : 0 < st.scheduler.refs ticket) :
    st.scheduler.hasOutstandingTickets = true := by
  rw [← Bool.not_eq_false]
  intro none
  have := inv.valid.no_tickets.mp none ticket
  omega

/-- Before the shutdown nobody deletes. -/
lemma Inv.undeleted (inv : Inv st) (open' : st.wasShutdown = false) :
    ExecutorLifetime.deleters st = 0 := by
  rw [inv.deleters, open']
  simp

lemma Inv.opened (inv : Inv st) (here : ¬ st.runner.Destroyed) : st.wasShutdown = false :=
  Bool.eq_false_iff.mpr fun shut => here (inv.shut.mp shut)

/-- Once somebody has come to delete, nobody holds a ticket. -/
lemma Inv.no_holders (inv : Inv st) (deletes : 0 < ExecutorLifetime.deleters st) :
    st.wasShutdown = true ∧ st.scheduler.hasOutstandingTickets = false ∧
      ∀ ticket, holders st ticket = 0 := by
  have counted := inv.deleters
  by_cases gone : st.wasShutdown = true ∧ st.scheduler.hasOutstandingTickets = false
  · refine ⟨gone.1, gone.2, fun ticket => ?_⟩
    rw [← inv.refs]
    exact inv.valid.no_tickets.mp gone.2 ticket
  · rw [if_neg gone] at counted
    omega

lemma Inv.one_deleter (inv : Inv st) : ExecutorLifetime.deleters st ≤ 1 := by
  rw [inv.deleters]
  split <;> omega

/-- One call goes on: what it kept and what it keeps. -/
lemma holders_set (found : st.calls[i]? = some call) (new : Call T) (ticket : Ticket) :
    st.handles.count ticket + (st.calls.set i new).countP (keeps ticket) +
      currentRefs st.currentTaskTicket ticket + (if keeps ticket call then 1 else 0) =
    holders st ticket + (if keeps ticket new then 1 else 0) := by
  have counted := countP_set_add found new (keeps ticket)
  unfold holders
  omega

lemma deleters_set (found : st.calls[i]? = some call) (new : Call T) :
    st.deletions + (st.calls.set i new).countP isDeleting + runnerDeletes st.runner +
      (if isDeleting call then 1 else 0) = deleters st + (if isDeleting new then 1 else 0) := by
  have counted := countP_set_add found new isDeleting
  unfold deleters
  omega

section

variable (inv : Inv st)
include inv

/-- A call goes on and leaves the references as they are to be. -/
lemma Inv.set_call (found : st.calls[i]? = some call) (quiet : isDeleting call = false)
    (valid : Valid scheduler) (refs : ∀ ticket, scheduler.refs ticket + (if keeps ticket call then 1 else 0) +
      st.handles.count ticket = st.scheduler.refs ticket + handles.count ticket +
        (if keeps ticket new then 1 else 0)) (deletes : (if isDeleting new then 1 else 0) +
      (if st.wasShutdown = true ∧ st.scheduler.hasOutstandingTickets = false then 1 else 0) =
        if st.wasShutdown = true ∧ scheduler.hasOutstandingTickets = false then 1 else 0) :
    Inv { st with scheduler, needWake, handles, calls := st.calls.set i new } where
  valid := valid
  refs ticket := by
    have before := inv.refs ticket
    have moved := holders_set found new ticket
    have after := refs ticket
    simp only [holders] at before moved ⊢
    omega
  shut := inv.shut
  current := inv.current
  deleters := by
    have before := inv.deleters
    have moved := deleters_set found new
    simp only [quiet, Bool.false_eq_true, if_false, ExecutorLifetime.deleters] at before moved ⊢
    omega

lemma Inv.scheduleTask (found : st.calls[i]? = some (.scheduling task)) :
    Inv (st.scheduleTask i task) := by
  have valid : Valid (st.scheduler.scheduleTask task) :=
    ⟨inv.valid.next, inv.valid.zero, inv.valid.fresh, inv.valid.positive⟩
  unfold State.scheduleTask
  split
  · exact inv.fail
  rename_i open'
  split <;> exact inv.set_call found rfl valid (fun _ => rfl) (by simp [isDeleting, open'])

lemma Inv.duplicateTicket (found : st.calls[i]? = some (.duplicating ticket)) :
    Inv (st.duplicateTicket i ticket) := by
  unfold State.duplicateTicket
  split
  · exact inv.fail
  rename_i scheduler duplicated
  have recounts := duplicateTicket_recounts inv.valid duplicated
  have valid := recounts.valid inv.valid
  have before := inv.outstanding recounts.held
  have after : scheduler.hasOutstandingTickets = true := by
    rw [← Bool.not_eq_false]
    intro none
    have zero := valid.no_tickets.mp none ticket
    rw [recounts.refs, if_pos rfl] at zero
    omega
  refine inv.set_call found rfl valid ?_ (by simp [isDeleting, before, after])
  intro other
  rw [recounts.refs other]
  by_cases same : other = ticket
  · subst same
    simp [keeps]
    omega
  · have apart : ¬ ticket = other := fun equal => same equal.symm
    simp [keeps, same, apart]

lemma Inv.resolveTicket (found : st.calls[i]? = some (.resolving ticket resumeTask)) :
    Inv (st.resolveTicket i ticket resumeTask) := by
  unfold State.resolveTicket
  simp only
  split
  · exact inv.fail
  rename_i scheduler resolved
  have recounts : Recounts st.scheduler scheduler ticket (st.scheduler.refs ticket - 1) := by
    split at resolved
    · obtain ⟨⟨_, _⟩, resumed, rfl⟩ := map_eq_some_iff.mp resolved
      exact resumeTaskWithTicket_recounts resumed
    · obtain ⟨⟨_, _⟩, released, rfl⟩ := map_eq_some_iff.mp resolved
      exact releaseTicket_recounts released
  have valid := recounts.valid inv.valid
  have before := inv.outstanding recounts.held
  have refs : ∀ (new : Call T), (∀ other, keeps other new = false) → ∀ other,
      scheduler.refs other + (if keeps other (.resolving ticket resumeTask : Call T) then 1 else 0) +
        st.handles.count other = st.scheduler.refs other + st.handles.count other +
          (if keeps other new then 1 else 0) := by
    intro new free other
    have held := recounts.held
    rw [recounts.refs other, free other]
    by_cases same : other = ticket
    · subst same
      simp [keeps]
      omega
    · have apart : ¬ ticket = other := fun equal => same equal.symm
      simp [keeps, same, apart]
  split
  next shut =>
    split
    · exact inv.fail
    split <;> rename_i after
    · exact inv.set_call found rfl valid (refs _ fun _ => rfl)
        (by simp [isDeleting, before, after])
    · exact inv.set_call found rfl valid (refs _ fun _ => rfl)
        (by simp [isDeleting, before, after, shut])
  next open' =>
    split <;>
      exact inv.set_call found rfl valid (refs _ fun _ => rfl) (by simp [isDeleting, open'])

lemma Inv.notify (found : st.calls[i]? = some .notifying) :
    Inv (st.notify.setCall i .done) := by
  have moved : Inv (st.setCall i .done) :=
    inv.set_call found rfl inv.valid (fun _ => rfl) (by simp [isDeleting])
  unfold State.notify
  split
  next blocked =>
    have counted := moved.deleters
    refine ⟨moved.valid, moved.refs, ?_, ?_, ?_⟩
    · have shut := moved.shut
      rw [show (st.setCall i .done).runner = .blocked from blocked] at shut
      exact shut
    · intro nonzero
      have executes := moved.current nonzero
      rw [show (st.setCall i .done).runner = .blocked from blocked] at executes
      exact executes
    · simp only [ExecutorLifetime.deleters, State.setCall, blocked] at counted
      exact counted
  · exact moved

/-- The call that deletes. -/
lemma Inv.delete (found : st.calls[i]? = some .deleting) :
    Inv ({ st with deletions := st.deletions + 1 }.setCall i .done) where
  valid := inv.valid
  refs ticket := by
    have moved := holders_set found .done ticket
    have before := inv.refs ticket
    have free : keeps ticket (.deleting : Call T) = keeps ticket (.done : Call T) := rfl
    rw [free] at moved
    simp only [holders, State.setCall] at before moved ⊢
    omega
  shut := inv.shut
  current := inv.current
  deleters := by
    have moved := deleters_set found .done
    refine Eq.trans ?_ inv.deleters
    simp only [ExecutorLifetime.deleters, State.setCall, isDeleting, if_true, Bool.false_eq_true,
      if_false] at moved ⊢
    omega

/-- On a dispatcher that is deleted a call has no ticket to lose. -/
lemma Inv.touches (deleted : 0 < st.deletions)
    (found : st.calls[i]? = some call) (quiet : isDeleting call = false) :
    Inv (st.setCall i .done) := by
  have none := (inv.no_holders (by unfold ExecutorLifetime.deleters; omega)).2.2
  refine inv.set_call found quiet inv.valid ?_ (by simp [isDeleting])
  intro ticket
  have free : keeps ticket call = false := by
    have counted := none ticket
    have zero : st.calls.countP (keeps ticket) = 0 := by
      unfold holders at counted
      omega
    exact Bool.eq_false_iff.mpr (countP_eq_zero.mp zero call (mem_of_getElem? found))
  rw [free]
  rfl

lemma Inv.goOn (found : st.calls[i]? = some call)
    (moved : st.goOn i call = some next) : Inv next := by
  cases call with
  | done => cases moved
  | deleting =>
    cases moved
    exact inv.delete found
  | scheduling | duplicating | resolving | notifying =>
    simp only [State.goOn] at moved
    split at moved <;> cases moved
    · exact inv.touches (by assumption) found rfl
    · first
      | exact inv.scheduleTask found
      | exact inv.duplicateTicket found
      | exact inv.resolveTicket found
      | exact inv.notify found

end

/-! ## The thread that owns the executor -/

/-- It goes on, with the references as they are to be. -/
lemma Inv.runs {current : Ticket} (inv : Inv st) (here : ¬ st.runner.Destroyed)
    (there : ¬ runner.Destroyed) (valid : Valid scheduler)
    (refs : ∀ ticket, scheduler.refs ticket + st.handles.count ticket +
      currentRefs st.currentTaskTicket ticket =
        st.scheduler.refs ticket + handles.count ticket + currentRefs current ticket)
    (executes : current ≠ 0 → Executes runner) :
    Inv { st with scheduler, needWake, currentTaskTicket := current, runner, handles } := by
  have open' := inv.opened here
  have idle : ∀ {runner : Runner T}, ¬ runner.Destroyed → runnerDeletes runner = 0 := by
    intro runner undestroyed
    cases runner <;> first | rfl | exact absurd trivial undestroyed
  refine ⟨valid, ?_, ?_, executes, ?_⟩
  · intro ticket
    have before := inv.refs ticket
    have after := refs ticket
    simp only [holders] at before ⊢
    omega
  · simp only [open', Bool.false_eq_true, false_iff]
    exact there
  · have undeleted := inv.undeleted open'
    have none := idle here
    simp only [ExecutorLifetime.deleters, none, idle there, open', Bool.false_eq_true, false_and,
      if_false] at undeleted ⊢
    exact undeleted

lemma Inv.not_current (inv : Inv st) (idle : ¬ Executes st.runner) : st.currentTaskTicket = 0 := by
  by_contra nonzero
  exact idle (inv.current nonzero)

lemma nextTask_open : ¬ (State.nextTask rest).Destroyed := by
  cases rest <;> exact id

lemma Inv.waitForRunnableTasks (inv : Inv st) (here : ¬ st.runner.Destroyed)
    (idle : ¬ Executes st.runner) : Inv st.waitForRunnableTasks := by
  have valid : Valid st.scheduler.takeRunnableTasks.1 :=
    ⟨inv.valid.next, inv.valid.zero, inv.valid.fresh, inv.valid.positive⟩
  have none := inv.not_current idle
  unfold State.waitForRunnableTasks
  split
  · exact inv.fail
  simp only
  split
  · exact inv.runs here id valid (fun _ => rfl) fun nonzero => absurd none nonzero
  split
  · exact inv.runs here id valid (fun _ => rfl) fun nonzero => absurd none nonzero
  · exact inv.runs here id valid (fun _ => rfl) fun nonzero => absurd none nonzero

lemma Inv.finishTask (inv : Inv st) (here : ¬ st.runner.Destroyed) (task : T)
    (rest : List T) (pending : Bool) : Inv (st.finishTask task rest pending) := by
  unfold State.finishTask
  split
  next none =>
    exact inv.runs here (nextTask_open) inv.valid (fun _ => rfl)
      fun nonzero => absurd none nonzero
  · exact inv.runs here id inv.valid (fun _ => rfl) fun _ => trivial

lemma Inv.finalizeTask (inv : Inv st) (here : ¬ st.runner.Destroyed) (task : Option T)
    (rest : List T) : Inv (st.finalizeTask task rest) := by
  unfold State.finalizeTask
  split
  · exact inv.fail
  split
  · exact inv.fail
  rename_i scheduler _ finalized
  have recounts := finalizeTicket_recounts finalized
  refine inv.runs here (nextTask_open) (recounts.valid inv.valid) ?_
    fun nonzero => absurd rfl nonzero
  intro ticket
  have held := recounts.held
  have nonzero : st.currentTaskTicket ≠ 0 := by
    intro zero
    rw [zero, refs_of_none inv.valid.zero] at held
    cases held
  rw [recounts.refs ticket]
  split <;> rename_i same
  · rw [same, currentRefs_self nonzero, currentRefs_zero]
    omega
  · rw [currentRefs_of_ne same, currentRefs_zero]

lemma Inv.suspendCurrentTask (inv : Inv st)
    (running : st.runner = .running task rest) : Inv st.suspendCurrentTask := by
  have here : ¬ st.runner.Destroyed := by
    rw [running]
    exact id
  have executes : Executes st.runner := by
    rw [running]
    exact trivial
  unfold State.suspendCurrentTask
  split
  · exact inv.fail
  split
  next none =>
    refine inv.runs here here (obtainTicket_valid inv.valid) ?_ fun _ => executes
    intro ticket
    have fresh := refs_of_none (inv.valid.fresh st.scheduler.nextTicket (Nat.le_refl _))
    have nonzero : st.scheduler.nextTicket ≠ 0 := Nat.ne_of_gt inv.valid.next
    have counted := obtainTicket_refs st.scheduler ticket
    refine (congrArg (· + _ + _) counted).trans ?_
    rw [none, currentRefs_zero]
    split <;> rename_i same
    · rw [same, currentRefs_self nonzero, count_cons_self]
      omega
    · rw [currentRefs_of_ne same, count_cons_of_ne (Ne.symm same)]
  · split
    · exact inv.fail
    rename_i scheduler duplicated
    have recounts := duplicateTicket_recounts inv.valid duplicated
    refine inv.runs here here (recounts.valid inv.valid) ?_ fun _ => executes
    intro ticket
    rw [recounts.refs ticket]
    split <;> rename_i same
    · rw [same, count_cons_self]
      omega
    · rw [count_cons_of_ne (Ne.symm same)]

lemma Inv.shutdown (inv : Inv st) (outside : st.runner = .outside) : Inv st.shutdown := by
  have here : ¬ st.runner.Destroyed := by
    rw [outside]
    exact id
  have undeleted := inv.undeleted (inv.opened here)
  have none : st.currentTaskTicket = 0 := inv.not_current (by rw [outside]; exact id)
  unfold State.shutdown
  split
  · exact inv.fail
  split
  · exact inv.fail
  rename_i scheduler _ taken
  obtain ⟨refs, valid⟩ := takeAllTasks_refs taken
  have calls : st.deletions + st.calls.countP isDeleting = 0 := by
    unfold ExecutorLifetime.deleters at undeleted
    omega
  refine ⟨valid inv.valid, fun ticket => (refs ticket).trans (inv.refs ticket), ?_,
    fun nonzero => absurd none nonzero, ?_⟩
  · simp only [true_iff]
    split <;> exact trivial
  · cases outstanding : scheduler.hasOutstandingTickets <;>
      simp [ExecutorLifetime.deleters, runnerDeletes, calls]

/-- `delete this` in `shutdown`. -/
lemma Inv.close (inv : Inv st) (deleting : st.runner = .deleting) :
    Inv { st with runner := .closed, deletions := st.deletions + 1 } := by
  have counted := inv.deleters
  refine ⟨inv.valid, inv.refs, ?_, ?_, Eq.trans ?_ counted⟩
  · have shut := inv.shut
    rw [deleting] at shut
    exact shut
  · intro nonzero
    have executes := inv.current nonzero
    rw [deleting] at executes
    exact executes
  · simp only [ExecutorLifetime.deleters, deleting, runnerDeletes]
    omega

/-! ## Every step -/

/-- A call of `schedule_task` begins. -/
lemma Inv.schedules (inv : Inv st) (task : T) :
    Inv { st with calls := st.calls ++ [.scheduling task] } where
  valid := inv.valid
  refs ticket := by
    have before := inv.refs ticket
    simpa [holders, countP_append, keeps] using before
  shut := inv.shut
  current := inv.current
  deleters := by
    have before := inv.deleters
    simpa [ExecutorLifetime.deleters, countP_append, isDeleting] using before

/-- A call begins that takes a ticket along. -/
lemma Inv.lends (inv : Inv st) (handle : ticket ∈ st.handles)
    (keepsIt : ∀ other, keeps other call = decide (ticket = other)) (quiet : isDeleting call = false) :
    Inv { st with handles := st.handles.erase ticket, calls := st.calls ++ [call] } where
  valid := inv.valid
  refs other := by
    have before := inv.refs other
    have positive := count_pos_iff.mpr handle
    by_cases same : ticket = other
    · subst same
      simp only [holders, countP_append, countP_singleton, keepsIt,
        count_erase_self, decide_true, if_true] at before ⊢
      omega
    · simp only [holders, countP_append, countP_singleton, keepsIt, same, decide_false,
        Bool.false_eq_true, if_false, count_erase_of_ne (Ne.symm same)] at before ⊢
      omega
  shut := inv.shut
  current := inv.current
  deleters := by
    have before := inv.deleters
    simpa [ExecutorLifetime.deleters, countP_append, quiet] using before

lemma inv_step {label : Label T} (inv : Inv st) (moved : step st label = some next) : Inv next := by
  replace moved := act_of_step moved
  cases label with
  | schedule task =>
    simp only [act, ite_none_left_eq_some, some.injEq] at moved
    obtain ⟨_, rfl⟩ := moved
    exact inv.schedules task
  | duplicate | resolve =>
    obtain ⟨handle, rfl⟩ := Machine.of_guard moved
    exact inv.lends handle (fun _ => rfl) rfl
  | call =>
    obtain ⟨call, found, moved⟩ := bind_eq_some_iff.mp moved
    exact inv.goOn found moved
  | run =>
    simp only [act] at moved
    split at moved <;> cases moved
    rename_i outside
    have none := inv.not_current (by rw [outside]; exact id)
    exact inv.runs (by rw [outside]; exact id) id inv.valid (fun _ => rfl)
      fun nonzero => absurd none nonzero
  | lock =>
    simp only [act] at moved
    split at moved <;> cases moved
    next entering =>
      exact inv.waitForRunnableTasks (by rw [entering]; exact id) (by rw [entering]; exact id)
    next woken =>
      have cleared : Inv { st with needWake := false } :=
        { inv with }
      exact cleared.waitForRunnableTasks (by rw [woken]; exact id) (by rw [woken]; exact id)
    next finalizing => exact inv.finalizeTask (by rw [finalizing]; exact id) _ _
  | wake =>
    simp only [act] at moved
    split at moved <;> cases moved
    rename_i blocked
    have none := inv.not_current (by rw [blocked]; exact id)
    exact inv.runs (by rw [blocked]; exact id) id inv.valid (fun _ => rfl)
      fun nonzero => absurd none nonzero
  | suspend =>
    simp only [act] at moved
    split at moved <;> cases moved
    rename_i running
    exact inv.suspendCurrentTask running
  | finish =>
    simp only [act] at moved
    split at moved <;> cases moved
    rename_i running
    exact inv.finishTask (by rw [running]; exact id) _ _ _
  | destroy =>
    simp only [act] at moved
    split at moved <;> cases moved
    rename_i outside
    exact inv.shutdown outside
  | delete =>
    simp only [act] at moved
    split at moved <;> cases moved
    rename_i deleting
    exact inv.close deleting

/-! ## The deletion -/

/-- The step is `delete this`. -/
def Deletes (st : State T) : Label T → Prop
  | .delete => True
  | .call i => st.calls[i]? = some .deleting
  | _ => False

/-- Nobody holds a ticket. -/
structure Released (st : State T) : Prop where
  handles : st.handles = []
  calls : ∀ call ∈ st.calls, ∀ ticket, keeps ticket call = false
  scheduler : st.scheduler.hasOutstandingTickets = false

/-- A call that is to come back to the dispatcher and holds nothing that keeps it alive:
a `schedule_task` before its section, or a notification. -/
def Late : Call T → Prop
  | .scheduling _ => True
  | .notifying => True
  | _ => False

/-- At the deletion no call is late. -/
def Unused (st : State T) (label : Label T) : Prop :=
  Deletes st label → ∀ call ∈ st.calls, ¬ Late call

/-- The executor is destroyed, nobody has a ticket, and every call has ended. -/
structure Complete (final : State T) : Prop where
  failed : final.failed = false
  runner : final.runner = .closed
  handles : final.handles = []
  calls : ∀ call ∈ final.calls, call = .done

lemma released_of_none (outstanding : st.scheduler.hasOutstandingTickets = false)
    (none : ∀ ticket, holders st ticket = 0) : Released st := by
  refine ⟨?_, ?_, outstanding⟩
  · refine eq_nil_iff_forall_not_mem.mpr fun ticket handle => ?_
    have positive := count_pos_iff.mpr handle
    have zero := none ticket
    unfold holders at zero
    omega
  · intro call mem ticket
    have zero := none ticket
    have counted : st.calls.countP (keeps ticket) = 0 := by
      unfold holders at zero
      omega
    exact Bool.eq_false_iff.mpr (countP_eq_zero.mp counted call mem)

private lemma deletes_counted (moved : step st label = some next) (deletes : Deletes st label) :
    0 < st.calls.countP isDeleting + runnerDeletes st.runner := by
  cases label with
  | call =>
    have positive : 0 < st.calls.countP isDeleting :=
      countP_pos_iff.mpr ⟨_, mem_of_getElem? deletes, rfl⟩
    omega
  | delete =>
    simp only [SingleThreadedExecutor.step, ite_none_left_eq_some, act] at moved
    obtain ⟨_, moved⟩ := moved
    split at moved <;> cases moved
    rename_i deleting
    rw [deleting]
    exact Nat.lt_of_lt_of_le Nat.one_pos (Nat.le_add_left _ _)
  | _ => exact deletes.elim

/-- The dispatcher is deleted after the shutdown, once, and when no ticket is left. -/
lemma Inv.deletes_rightly (inv : Inv st)
    (moved : step st label = some next) (deletes : Deletes st label) :
    st.wasShutdown = true ∧ st.deletions = 0 ∧ Released st := by
  have counted := deletes_counted moved deletes
  have one := inv.one_deleter
  obtain ⟨shut, outstanding, none⟩ := inv.no_holders (by
    unfold ExecutorLifetime.deleters
    omega)
  refine ⟨shut, ?_, released_of_none outstanding none⟩
  unfold ExecutorLifetime.deleters at one
  omega

private lemma closed_of_destroyed (destroyed : runner.Destroyed)
    (idle : runnerDeletes runner = 0) : runner = .closed := by
  cases runner with
  | closed => rfl
  | deleting => cases idle
  | _ => exact destroyed.elim

/-- After a deletion that found no late call there is nobody to take a step. -/
lemma Inv.ended (inv : Inv st) (deleted : 0 < st.deletions)
    (quiet : ∀ call ∈ st.calls, ¬ Late call) : step st label = none := by
  have one := inv.one_deleter
  obtain ⟨shut, outstanding, none⟩ := inv.no_holders (by
    unfold ExecutorLifetime.deleters
    omega)
  have destroyed := inv.shut.mp shut
  have released := released_of_none outstanding none
  have undeleting : st.calls.countP isDeleting = 0 ∧ runnerDeletes st.runner = 0 := by
    unfold ExecutorLifetime.deleters at one
    omega
  by_contra enabled
  obtain ⟨_, moved⟩ := ne_none_iff_exists'.mp enabled
  replace moved := act_of_step moved
  have closed := closed_of_destroyed destroyed undeleting.2
  cases label with
  | schedule =>
    rw [act, if_pos destroyed] at moved
    cases moved
  | duplicate | resolve => simp [act, released.handles] at moved
  | call =>
    obtain ⟨call, found, moved⟩ := bind_eq_some_iff.mp moved
    have mem := mem_of_getElem? found
    cases call with
    | done => cases moved
    | deleting => exact absurd rfl (countP_eq_zero.mp undeleting.1 _ mem)
    | scheduling | notifying => exact quiet _ mem trivial
    | duplicating ticket | resolving ticket resumeTask =>
      have free := released.calls _ mem ticket
      simp [keeps] at free
  | _ => simp [act, closed] at moved

lemma Inv.undeleted_before (inv : Inv st) (quiet : 0 < st.deletions → ∀ call ∈ st.calls, ¬ Late call)
    (moved : step st label = some next) : st.deletions = 0 := by
  by_contra nonzero
  have deleted := Nat.pos_of_ne_zero nonzero
  rw [inv.ended deleted (quiet deleted)] at moved
  cases moved

private lemma resolveTicket_deletions :
    (st.resolveTicket i ticket resumeTask).deletions = st.deletions := by
  unfold State.resolveTicket
  simp only
  split
  · rfl
  split
  · split
    · rfl
    · split <;> rfl
  · split <;> rfl

private lemma goOn_deletions (moved : st.goOn i call = some next)
    (quiet : isDeleting call = false) : next.deletions = st.deletions := by
  cases call with
  | done => cases moved
  | deleting => cases quiet
  | scheduling =>
    simp only [State.goOn, State.scheduleTask] at moved
    split at moved <;> cases moved
    · rfl
    · split
      · rfl
      · split <;> rfl
  | duplicating ticket =>
    simp only [State.goOn, State.duplicateTicket] at moved
    split at moved <;> cases moved
    · rfl
    · split <;> rfl
  | resolving ticket =>
    simp only [State.goOn] at moved
    split at moved <;> cases moved
    · rfl
    · exact resolveTicket_deletions
  | notifying =>
    simp only [State.goOn, State.notify] at moved
    split at moved <;> cases moved
    · rfl
    · split <;> rfl

/-- Only `delete this` deletes. -/
private lemma deletions_kept (moved : step st label = some next)
    (deletes : ¬ Deletes st label) : next.deletions = st.deletions := by
  replace moved := act_of_step moved
  cases label with
  | call =>
    obtain ⟨call, found, moved⟩ := bind_eq_some_iff.mp moved
    refine goOn_deletions moved ?_
    cases call with
    | deleting => exact absurd found deletes
    | _ => rfl
  | delete => exact absurd trivial deletes
  | lock =>
    simp only [act, State.waitForRunnableTasks, State.finalizeTask] at moved
    split at moved <;> cases moved
    · split
      · rfl
      split
      · rfl
      · split <;> rfl
    · split
      · rfl
      split
      · rfl
      · split <;> rfl
    · split
      · rfl
      · split <;> rfl
  | suspend =>
    simp only [act, State.suspendCurrentTask] at moved
    split at moved <;> cases moved
    split
    · rfl
    split
    · rfl
    · split <;> rfl
  | finish =>
    simp only [act, State.finishTask] at moved
    split at moved <;> cases moved
    split <;> rfl
  | destroy =>
    simp only [act, State.shutdown] at moved
    split at moved <;> cases moved
    split
    · rfl
    · split <;> rfl
  | _ =>
    simp only [act] at moved
    split at moved <;> cases moved
    rfl

/-- A deletion is counted, and leaves the late calls as they are. -/
lemma deletes_step (moved : step st label = some next)
    (deletes : Deletes st label) : next.deletions = st.deletions + 1 ∧
      ∀ call, Late call → (call ∈ next.calls ↔ call ∈ st.calls) := by
  replace moved := act_of_step moved
  cases label with
  | call i =>
    have found : st.calls[i]? = some .deleting := deletes
    simp only [act, found, bind_some, State.goOn, some.injEq] at moved
    subst moved
    refine ⟨rfl, fun call isLate => ⟨fun mem => ?_, mem_set_of_ne found .done ?_⟩⟩
    · rcases mem_or_eq_of_mem_set mem with before | rfl
      · exact before
      · exact isLate.elim
    · rintro rfl
      exact isLate
  | delete =>
    simp only [act] at moved
    split at moved <;> cases moved
    exact ⟨rfl, fun _ _ => Iff.rfl⟩
  | _ => exact deletes.elim

end

/-! ## The lifetime -/

/-- A step on a dispatcher that is not deleted, which deletes it only after the shutdown
and with no ticket outstanding. -/
def Sound (st : State T) (label : Label T) : Prop :=
  st.deletions = 0 ∧ (Deletes st label → st.wasShutdown = true ∧ Released st)

/-- A run that ends with every call done and takes no step after the deletion has left
no call late. -/
private lemma unused_of_sound (ran : run step st labels = some final) (complete : Complete final)
    (sound : Admissible step Sound st labels) : Admissible step Unused st labels := by
  induction labels generalizing st with
  | nil => exact trivial
  | cons label rest ih =>
    obtain ⟨next, moved, ran⟩ := bind_eq_some_iff.mp ran
    intro other same
    obtain rfl : next = other := some.inj (moved.symm.trans same)
    have after := (sound next moved).2
    refine ⟨fun deletes call late isLate => ?_, ih ran after⟩
    obtain ⟨_, calls⟩ := deletes_step moved deletes
    have kept := (calls _ isLate).mpr late
    cases rest with
    | nil =>
      cases ran
      rw [complete.calls call kept] at isLate
      exact isLate
    | cons label rest =>
      -- the next step is on a dispatcher that is gone
      obtain ⟨last, moved, _⟩ := bind_eq_some_iff.mp ran
      have undeleted := (after last moved).1.1
      omega

/-- At the end the dispatcher was deleted. -/
lemma Inv.deleted_once {final : State T} (inv : Inv final) (complete : Complete final) :
    final.deletions = 1 := by
  have shut : final.wasShutdown = true := inv.shut.mpr (by rw [complete.runner]; exact trivial)
  have free : ∀ (p : Call T → Bool), p .done = false → final.calls.countP p = 0 := by
    intro p idle
    refine countP_eq_zero.mpr fun call mem => ?_
    rw [complete.calls call mem, idle]
    exact Bool.false_ne_true
  have current : final.currentTaskTicket = 0 :=
    inv.not_current (by rw [complete.runner]; exact id)
  have none : final.scheduler.hasOutstandingTickets = false := by
    refine inv.valid.no_tickets.mpr fun ticket => ?_
    rw [inv.refs, holders, complete.handles, free _ rfl, current, currentRefs_zero]
    rfl
  have counted := inv.deleters
  rw [ExecutorLifetime.deleters, free _ rfl, complete.runner, if_pos ⟨shut, none⟩] at counted
  exact counted

/-- In every state a ticket counts its holders, and the call that is to delete is one. -/
theorem tickets_counted (labels : List (Label T)) : Along step (fun _ _ next => Inv next) {} labels :=
  along_keeps (fun _ _ _ => inv_step) (fun _ _ _ => inv_step) inv_start

/-- Over every run to the end (the executor is destroyed, its tickets are resolved and
every call has ended): the dispatcher is deleted exactly once, after the shutdown and
with no ticket outstanding, and no step is taken on it afterwards, exactly if at the
deletion no call is late. -/
theorem lifetime_iff {labels : List (Label T)} {final : State T}
    (ran : run step {} labels = some final) (complete : Complete final) :
    (final.deletions = 1 ∧ Admissible step Sound {} labels) ↔ Admissible step Unused {} labels := by
  constructor
  · rintro ⟨_, sound⟩
    exact unused_of_sound ran complete sound
  · intro unused
    have end' : Inv final := run_keeps (fun _ _ _ inv stepped => inv_step inv stepped) inv_start ran
    refine ⟨end'.deleted_once complete, ?_⟩
    refine @along_of_invariant _ _ step
      (fun st => Inv st ∧ (0 < st.deletions → ∀ call ∈ st.calls, ¬ Late call))
      Unused _ {} labels ?_ ?_ ⟨inv_start, nofun⟩ unused
    · rintro st label next ⟨inv, quiet⟩ unusedHere stepped
      refine ⟨inv_step inv stepped, fun deleted call member isLate => ?_⟩
      by_cases deletes : Deletes st label
      · exact unusedHere deletes call (((deletes_step stepped deletes).2 call isLate).mp member) isLate
      · rw [deletions_kept stepped deletes, inv.undeleted_before quiet stepped] at deleted
        cases deleted
    · rintro st label next ⟨inv, quiet⟩ _ stepped
      refine ⟨inv.undeleted_before quiet stepped, fun deletes => ?_⟩
      obtain ⟨shut, _, released⟩ := inv.deletes_rightly stepped deletes
      exact ⟨shut, released⟩

/-- A task suspends, is released by another thread and abandoned, and the executor is
destroyed. -/
def orderly : List (Label Unit) :=
  [.schedule (), .call 0, .run, .lock, .suspend, .finish true, .lock, .lock, .resolve 1 false,
    .call 1, .call 1, .lock, .destroy, .delete]

theorem lifetime_iff_orderly : ∃ final, run step {} orderly = some final ∧ Complete final ∧
    ((final.deletions = 1 ∧ Admissible step Sound {} orderly) ↔
      Admissible step Unused {} orderly) := by
  have complete : ∀ final, run step {} orderly = some final → Complete final := by
    intro final ran
    cases ran
    exact ⟨rfl, rfl, rfl, by decide⟩
  refine ⟨_, rfl, complete _ rfl, lifetime_iff rfl (complete _ rfl)⟩

/-- As before, but the thread of `run()` wakes by itself after the other thread has left
its section: `run()` returns, the executor is destroyed, and the notification comes to a
dispatcher that is deleted. -/
def belated : List (Label Unit) :=
  [.schedule (), .call 0, .run, .lock, .suspend, .finish true, .lock, .lock, .resolve 1 false,
    .call 1, .wake, .lock, .destroy, .delete, .call 1]

theorem belated_not_sound :
    (∃ final, run step {} belated = some final ∧ Complete final) ∧
      ¬ Admissible step Sound {} belated := by
  refine ⟨⟨_, rfl, rfl, rfl, rfl, by decide⟩, fun sound => ?_⟩
  have last := ((((((((((((((sound _ rfl).2 _ rfl).2 _ rfl).2 _ rfl).2 _ rfl).2 _ rfl).2 _ rfl).2
    _ rfl).2 _ rfl).2 _ rfl).2 _ rfl).2 _ rfl).2 _ rfl).2 _ rfl).2 _ rfl
  exact absurd last.1.1 Nat.one_ne_zero

end FuchsiaSdk.ExecutorLifetime
