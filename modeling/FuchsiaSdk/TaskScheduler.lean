import Mathlib.Algebra.Ring.Nat
import Mathlib.Logic.Function.Basic

/-! `fpromise::subtle::scheduler`: the queue of runnable tasks and the table of the
tickets of suspended ones. Tickets are numbered in the order they are obtained, so
the table is a partial function with nothing at and above `nextTicket`; the 64-bit
counters are not taken to wrap. `none` stands for an assertion that fails. -/
namespace FuchsiaSdk.TaskScheduler
open Option

abbrev Ticket : Type := Nat

/-- `scheduler::ticket_record`. -/
structure TicketRecord (T : Type) where
  refCount : Nat
  wasResumed : Bool := false
  task : Option T := none
  deriving DecidableEq, Repr

/-- `scheduler`. -/
structure Scheduler (T : Type) where
  runnableTasks : List T := []
  tickets : Ticket → Option (TicketRecord T) := fun _ => none
  suspendedTaskCount : Nat := 0
  nextTicket : Ticket := 1

variable {T : Type}

namespace Scheduler

variable (sched : Scheduler T)

def hasRunnableTasks : Bool := !sched.runnableTasks.isEmpty

def hasSuspendedTasks : Bool := sched.suspendedTaskCount != 0

def hasOutstandingTickets : Bool :=
  (List.range sched.nextTicket).any fun ticket => (sched.tickets ticket).isSome

/-- A record is written back, or erased once nobody refers to it. -/
def put (ticket : Ticket) (record : TicketRecord T) : Scheduler T :=
  { sched with
    tickets := Function.update sched.tickets ticket
      (if record.refCount = 0 then none else some record) }

/-- The record that the assertions ask for. -/
def find (ticket : Ticket) : Option (TicketRecord T) :=
  (sched.tickets ticket).filter fun record => record.refCount != 0

def scheduleTask (task : T) : Scheduler T :=
  { sched with runnableTasks := sched.runnableTasks ++ [task] }

def obtainTicket (initialRefs : Nat) : Ticket × Scheduler T :=
  (sched.nextTicket, { sched with
      nextTicket := sched.nextTicket + 1
      tickets := Function.update sched.tickets sched.nextTicket
        (some { refCount := initialRefs }) })

/-- `finalize_ticket`; a task that was abandoned stays with the caller. -/
def finalizeTicket (ticket : Ticket) (task : Option T) : Option (Scheduler T × Option T) := do
  let found ← sched.find ticket
  if found.task.isSome then none
  else
    let record := { found with refCount := found.refCount - 1 }
    match task with
    | none => return (sched.put ticket record, none)
    | some task =>
      if record.wasResumed then return ((sched.scheduleTask task).put ticket record, none)
      else if 0 < record.refCount then
        let suspended :=
          { sched with suspendedTaskCount := sched.suspendedTaskCount + 1 }
        return (suspended.put ticket { record with task := some task }, none)
      else return (sched.put ticket record, some task)

/-- `duplicate_ticket`, on a 32-bit count. -/
def duplicateTicket (ticket : Ticket) : Option (Scheduler T) := do
  let record ← sched.find ticket
  let refCount := (record.refCount + 1) % 2 ^ 32
  if refCount = 0 then none else return sched.put ticket { record with refCount }

/-- `release_ticket`, with the task that it gives back. -/
def releaseTicket (ticket : Ticket) : Option (Scheduler T × Option T) := do
  let found ← sched.find ticket
  let record := { found with refCount := found.refCount - 1 }
  if record.refCount = 0 then
    match record.task with
    | none => return (sched.put ticket record, none)
    | some task =>
      if sched.suspendedTaskCount = 0 then none
      else
        let resumed := { sched with suspendedTaskCount := sched.suspendedTaskCount - 1 }
        return (resumed.put ticket record, some task)
  else return (sched.put ticket record, none)

/-- `resume_task_with_ticket`, and whether it resumed. -/
def resumeTaskWithTicket (ticket : Ticket) : Option (Scheduler T × Bool) := do
  let found ← sched.find ticket
  let record := { found with refCount := found.refCount - 1 }
  if record.wasResumed then return (sched.put ticket record, false)
  else
    let record := { record with wasResumed := true }
    match record.task with
    | none => return (sched.put ticket record, false)
    | some task =>
      if sched.suspendedTaskCount = 0 then none
      else
        let resumed := { sched with suspendedTaskCount := sched.suspendedTaskCount - 1 }
        return ((resumed.scheduleTask task).put ticket { record with task := none }, true)

def takeRunnableTasks : Scheduler T × List T :=
  ({ sched with runnableTasks := [] }, sched.runnableTasks)

/-- The tasks in the table, in the order of their tickets. -/
def suspendedTasks : List T :=
  (List.range sched.nextTicket).filterMap fun ticket =>
    (sched.tickets ticket).bind TicketRecord.task

def takeAllTasks : Option (Scheduler T × List T) :=
  if sched.suspendedTaskCount = 0 then
    some ({ sched with runnableTasks := [] }, sched.runnableTasks)
  else if sched.suspendedTaskCount < sched.suspendedTasks.length then none
  else
    some ({ sched with
      runnableTasks := []
      suspendedTaskCount := sched.suspendedTaskCount - sched.suspendedTasks.length
      tickets := fun ticket =>
        (sched.tickets ticket).map fun record => { record with task := none } },
      sched.runnableTasks ++ sched.suspendedTasks)

/-- How many references there are to a ticket. -/
def refs (ticket : Ticket) : Nat :=
  ((sched.tickets ticket).map TicketRecord.refCount).getD 0

end Scheduler

open Scheduler

/-! ## The references -/

structure Valid (sched : Scheduler T) : Prop where
  next : 0 < sched.nextTicket
  zero : sched.tickets 0 = none
  fresh : ∀ ticket, sched.nextTicket ≤ ticket → sched.tickets ticket = none
  positive : ∀ ticket record, sched.tickets ticket = some record →
    0 < record.refCount ∧ record.refCount < 2 ^ 32

section

variable {sched next : Scheduler T} {ticket : Ticket}

lemma valid_empty : Valid ({} : Scheduler T) :=
  ⟨Nat.one_pos, rfl, fun _ _ => rfl, nofun⟩

lemma refs_of_some (found : sched.tickets ticket = some record) :
    sched.refs ticket = record.refCount := by
  simp [refs, found]

lemma refs_of_none (absent : sched.tickets ticket = none) : sched.refs ticket = 0 := by
  simp [refs, absent]

lemma Valid.refs_eq_zero (valid : Valid sched) :
    sched.refs ticket = 0 ↔ sched.tickets ticket = none := by
  cases found : sched.tickets ticket with
  | none => simp [refs_of_none found]
  | some record =>
    have positive := (valid.positive ticket record found).1
    rw [refs_of_some found]
    simp only [reduceCtorEq, iff_false]
    omega

/-- No ticket is outstanding exactly if nobody refers to one. -/
lemma Valid.no_tickets (valid : Valid sched) :
    sched.hasOutstandingTickets = false ↔ ∀ ticket, sched.refs ticket = 0 := by
  simp only [valid.refs_eq_zero]
  constructor
  · intro empty ticket
    by_cases below : ticket < sched.nextTicket
    · have := List.any_eq_false.mp empty ticket (List.mem_range.mpr below)
      simpa using this
    · exact valid.fresh ticket (Nat.le_of_not_lt below)
  · intro empty
    refine List.any_eq_false.mpr fun ticket _ => ?_
    simp [empty ticket]

lemma find_eq_some (found : sched.find ticket = some record) :
    sched.tickets ticket = some record ∧ 0 < record.refCount := by
  obtain ⟨held, positive⟩ := filter_eq_some_iff.mp found
  exact ⟨held, Nat.pos_of_ne_zero (bne_iff_ne.mp positive)⟩

/-- The count of one ticket becomes `count`, and everything else stays. -/
structure Recounts (sched next : Scheduler T) (ticket : Ticket) (count : Nat) : Prop where
  held : 0 < sched.refs ticket
  refs : ∀ other, next.refs other = if other = ticket then count else sched.refs other
  valid : Valid sched → Valid next

/-- Whoever writes a record back changes the count of its ticket alone. -/
lemma recounts_put {other : Scheduler T}
    (held : sched.find ticket = some found) (tickets : other.tickets = sched.tickets)
    (counter : other.nextTicket = sched.nextTicket)
    (bounded : found.refCount < 2 ^ 32 → record.refCount < 2 ^ 32) :
    Recounts sched (other.put ticket record) ticket record.refCount := by
  obtain ⟨held, positive⟩ := find_eq_some held
  have here : (other.put ticket record).tickets ticket =
      if record.refCount = 0 then none else some record := Function.update_self ..
  have away : ∀ unrelated, unrelated ≠ ticket →
      (other.put ticket record).tickets unrelated = sched.tickets unrelated := by
    intro unrelated apart
    exact (Function.update_of_ne apart ..).trans (congrFun tickets unrelated)
  refine ⟨(refs_of_some held).symm ▸ positive, ?_, ?_⟩
  · intro unrelated
    by_cases same : unrelated = ticket
    · subst same
      rw [Scheduler.refs, here]
      by_cases gone : record.refCount = 0 <;> simp [gone]
    · rw [if_neg same, Scheduler.refs, away unrelated same, Scheduler.refs]
  · intro valid
    have inside : ticket ≠ 0 ∧ ticket < sched.nextTicket := by
      constructor
      · rintro rfl
        rw [valid.zero] at held
        cases held
      · by_contra beyond
        rw [valid.fresh ticket (Nat.le_of_not_lt beyond)] at held
        cases held
    refine ⟨?_, ?_, ?_, ?_⟩
    · exact counter ▸ valid.next
    · rw [away 0 inside.1.symm]
      exact valid.zero
    · intro unrelated beyond
      have beyond : sched.nextTicket ≤ unrelated := counter ▸ beyond
      have apart : unrelated ≠ ticket := Nat.ne_of_gt (Nat.lt_of_lt_of_le inside.2 beyond)
      rw [away unrelated apart]
      exact valid.fresh unrelated beyond
    · intro unrelated kept isKept
      by_cases same : unrelated = ticket
      · subst same
        rw [here] at isKept
        split at isKept <;> cases isKept
        rename_i nonzero
        exact ⟨Nat.pos_of_ne_zero nonzero, bounded (valid.positive _ found held).2⟩
      · rw [away unrelated same] at isKept
        exact valid.positive unrelated kept isKept

lemma recounts_found {other : Scheduler T}
    (held : sched.find ticket = some found) (tickets : other.tickets = sched.tickets)
    (counter : other.nextTicket = sched.nextTicket) (counted : record.refCount = found.refCount - 1) :
    Recounts sched (other.put ticket record) ticket (sched.refs ticket - 1) := by
  rw [refs_of_some (find_eq_some held).1, ← counted]
  exact recounts_put held tickets counter fun bounded => by omega

lemma finalizeTicket_recounts (finalized : sched.finalizeTicket ticket task = some (next, kept)) :
    Recounts sched next ticket (sched.refs ticket - 1) := by
  obtain ⟨_, held, finalized⟩ := bind_eq_some_iff.mp finalized
  split at finalized
  · cases finalized
  cases task with
  | none =>
    cases finalized
    exact recounts_found held rfl rfl rfl
  | some task =>
    simp only at finalized
    split at finalized
    · cases finalized
      exact recounts_found held rfl rfl rfl
    · split at finalized <;> cases finalized
      · exact recounts_found held rfl rfl rfl
      · exact recounts_found held rfl rfl rfl

lemma releaseTicket_recounts (released : sched.releaseTicket ticket = some (next, given)) :
    Recounts sched next ticket (sched.refs ticket - 1) := by
  obtain ⟨_, held, released⟩ := bind_eq_some_iff.mp released
  simp only at released
  split at released
  · split at released
    · cases released
      exact recounts_found held rfl rfl rfl
    · split at released <;> cases released
      exact recounts_found held rfl rfl rfl
  · cases released
    exact recounts_found held rfl rfl rfl

lemma resumeTaskWithTicket_recounts (resumed : sched.resumeTaskWithTicket ticket = some (next, did)) :
    Recounts sched next ticket (sched.refs ticket - 1) := by
  obtain ⟨_, held, resumed⟩ := bind_eq_some_iff.mp resumed
  simp only at resumed
  split at resumed
  · cases resumed
    exact recounts_found held rfl rfl rfl
  split at resumed
  · cases resumed
    exact recounts_found held rfl rfl rfl
  · split at resumed <;> cases resumed
    exact recounts_found held rfl rfl rfl

lemma duplicateTicket_recounts (valid : Valid sched)
    (duplicated : sched.duplicateTicket ticket = some next) :
    Recounts sched next ticket (sched.refs ticket + 1) := by
  obtain ⟨record, held, duplicated⟩ := bind_eq_some_iff.mp duplicated
  simp only at duplicated
  split at duplicated <;> cases duplicated
  have found := (find_eq_some held).1
  have bounded := (valid.positive ticket record found).2
  have small : (record.refCount + 1) % 2 ^ 32 = sched.refs ticket + 1 := by
    rw [refs_of_some found]
    omega
  rw [← small]
  exact recounts_put held rfl rfl fun _ => Nat.mod_lt _ (by decide)

/-- A duplicate leaves the tasks where they are. -/
lemma duplicateTicket_tasks (duplicated : sched.duplicateTicket ticket = some next) :
    next.hasRunnableTasks = sched.hasRunnableTasks ∧
      next.hasSuspendedTasks = sched.hasSuspendedTasks := by
  obtain ⟨_, _, duplicated⟩ := bind_eq_some_iff.mp duplicated
  simp only at duplicated
  split at duplicated <;> cases duplicated
  exact ⟨rfl, rfl⟩

/-- A new ticket. -/
lemma obtainTicket_refs (sched : Scheduler T) (other : Ticket) : (sched.obtainTicket 2).2.refs other =
      if other = sched.nextTicket then 2 else sched.refs other := by
  by_cases same : other = sched.nextTicket
  · subst same
    simp [Scheduler.refs, obtainTicket]
  · simp [Scheduler.refs, obtainTicket, same]

lemma obtainTicket_valid (valid : Valid sched) : Valid (sched.obtainTicket 2).2 := by
  have away : ∀ other, other ≠ sched.nextTicket →
      (sched.obtainTicket 2).2.tickets other = sched.tickets other :=
    fun other apart => Function.update_of_ne apart ..
  refine ⟨Nat.succ_pos _, ?_, ?_, ?_⟩
  · rw [away 0 (Nat.ne_of_lt valid.next)]
    exact valid.zero
  · intro other beyond
    rw [away other (Nat.ne_of_gt beyond)]
    exact valid.fresh other (Nat.le_of_succ_le beyond)
  · intro other record found
    by_cases same : other = sched.nextTicket
    · subst same
      have here : (sched.obtainTicket 2).2.tickets sched.nextTicket =
          some { refCount := 2 } := Function.update_self ..
      obtain rfl := some.inj (here.symm.trans found)
      exact ⟨Nat.two_pos, show 2 < 2 ^ 32 by decide⟩
    · rw [away other same] at found
      exact valid.positive other record found

/-- The tickets stay when the tasks are taken. -/
lemma takeAllTasks_refs (taken : sched.takeAllTasks = some (next, tasks)) :
    (∀ other, next.refs other = sched.refs other) ∧ (Valid sched → Valid next) := by
  unfold takeAllTasks at taken
  split at taken
  · cases taken
    exact ⟨fun _ => rfl, fun valid => { valid with }⟩
  split at taken <;> cases taken
  refine ⟨fun other => ?_, fun valid => ⟨valid.next, ?_, ?_, ?_⟩⟩
  · cases found : sched.tickets other <;> simp [Scheduler.refs, found]
  · simp [valid.zero]
  · intro other beyond
    simp [valid.fresh other beyond]
  · intro other _ found
    obtain ⟨before, held, rfl⟩ := map_eq_some_iff.mp found
    exact valid.positive other before held

end

end FuchsiaSdk.TaskScheduler
