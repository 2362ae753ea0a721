import FuchsiaSdk.Machine

/-! The delayed tasks of `async_patterns::TaskScope` (`task_scope.cc`). All steps are on the
dispatcher's thread: the dispatcher delivers a task, the handler runs it and then removes it
through its pointer to the scope, and the destructor of the scope cancels and deletes what is
on the same list. It may be called by a task that runs. Posting, by anyone and by destructors
of tasks, is a step of its own between the others. -/
namespace FuchsiaSdk.TaskScope
open Machine List

/-- Delayed tasks are numbered as they are posted. -/
abbrev TaskId : Type := Nat

structure State where
  /-- `delayed_task_list_`. -/
  delayedTaskList : List TaskId := []
  /-- The dispatcher holds these tasks. -/
  posted : List TaskId := []
  /-- The task whose handler is inside `Run`. -/
  running : Option TaskId := none
  stopped : Bool := false
  /-- `~TaskScope` has returned. -/
  gone : Bool := false
  isShutdown : Bool := false
  count : Nat := 0
  /-- All calls of `Run` and all deletions so far. -/
  runs : List TaskId := []
  destroyed : List TaskId := []
  lateRuns : Nat := 0
  /-- An assertion failed, or a task was touched after its deletion. -/
  failed : Bool := false
  deriving DecidableEq, Repr

inductive Label where
  | post
  | deliver (task : TaskId)
  | finish
  | beginDestroy
  | cancelNext
  | endDestroy
  | shutdown
  deriving DecidableEq, Repr

namespace State

/-- `PostImpl`: a task that is not posted is destroyed. -/
def post (st : State) : State :=
  if st.stopped || st.isShutdown then
    { st with count := st.count + 1, destroyed := st.count :: st.destroyed }
  else
    { st with
      count := st.count + 1
      delayedTaskList := st.delayedTaskList ++ [st.count]
      posted := st.posted ++ [st.count] }

/-- `RemoveDelayedTask`. -/
def removeDelayedTask (st : State) (task : TaskId) : State :=
  { st with
    failed := st.failed || task ∈ st.destroyed
    delayedTaskList := st.delayedTaskList.erase task
    destroyed := task :: st.destroyed }

end State

/-- The destructor is not under way, so the dispatcher's thread can go on. -/
def State.free (st : State) : Bool := !st.stopped || st.gone

def step (st : State) : Label → Option State
  | .post => if !st.gone then some st.post else none
  | .deliver task =>
    -- `Handler`, which runs the task unless the dispatcher is shut down
    if task ∈ st.posted ∧ st.running = none ∧ st.free then
      let taken := { st with posted := st.posted.erase task }
      some (if st.isShutdown then taken.removeDelayedTask task
        else { taken with
          running := some task
          runs := task :: st.runs
          lateRuns := st.lateRuns + st.gone.toNat })
    else none
  | .finish =>
    match st.running with
    | some task =>
      if st.free then some ({ st with running := none }.removeDelayedTask task) else none
    | none => none
  | .beginDestroy => if !st.stopped then some { st with stopped := true } else none
  | .cancelNext =>
    match st.delayedTaskList with
    | task :: _ =>
      -- `async_cancel_task` does not find a task that the dispatcher has taken
      if st.stopped then
        some ({ st with
          posted := st.posted.erase task
          failed := st.failed || task ∉ st.posted }.removeDelayedTask task)
      else none
    | [] => none
  | .endDestroy =>
    if st.stopped ∧ !st.gone ∧ st.delayedTaskList = [] then some { st with gone := true }
    else none
  | .shutdown => some { st with isShutdown := true }

/-! ## Where a task is -/

/-- What holds while one task may be in the hands of a step. -/
structure Inv (held : Option TaskId) (st : State) : Prop where
  /-- A task is on the list until it is destroyed. -/
  places : ∀ task, st.delayedTaskList.count task + st.destroyed.count task =
    if task < st.count then 1 else 0
  /-- A task on the list is with the dispatcher, runs or is held. -/
  listed : ∀ task, st.delayedTaskList.count task = st.posted.count task +
    (if st.running = some task then 1 else 0) + if held = some task then 1 else 0
  runs : ∀ task, st.runs.count task + st.posted.count task ≤ if task < st.count then 1 else 0
  gone : st.gone → st.delayedTaskList = []
  lateRuns : st.lateRuns = 0

/-- The destructor does not come to a task that runs. -/
def Allowed (st : State) (label : Label) : Prop :=
  label = .cancelNext → st.running = none ∨ st.running ≠ st.delayedTaskList.head?

section Steps

variable {st next : State} {task : TaskId}

lemma Inv.post (inv : Inv none st) (alive : st.gone = false) : Inv none st.post := by
  have places := inv.places
  have listed := inv.listed
  have runs := inv.runs
  unfold State.post
  split
  · refine { inv with places := fun other => ?_, runs := fun other => ?_ }
    · have place := places other
      grind
    · have ran := runs other
      grind
  · refine { inv with
      places := fun other => ?_, listed := fun other => ?_, runs := fun other => ?_,
      gone := fun gone => absurd gone (by simp [alive]) }
    · have place := places other
      grind
    · have here := listed other
      grind
    · have ran := runs other
      grind

/-- A task that the dispatcher holds is taken from it. -/
lemma Inv.take (inv : Inv none st) (mem : task ∈ st.posted) :
    Inv (some task) { st with posted := st.posted.erase task } := by
  have present := count_pos_iff.mpr mem
  refine { inv with listed := fun other => ?_, runs := fun other => ?_ }
  · have here := inv.listed other
    grind
  · have ran := inv.runs other
    grind

lemma Inv.on_list (inv : Inv (some task) st) : task ∈ st.delayedTaskList ∧ task ∉ st.destroyed := by
  have here := inv.listed task
  have place := inv.places task
  rw [if_pos rfl] at here
  constructor
  · exact count_pos_iff.mp (by omega)
  · exact count_eq_zero.mp (by split at place <;> omega)

lemma Inv.remove (inv : Inv (some task) st) : Inv none (st.removeDelayedTask task) := by
  have present := count_pos_iff.mpr inv.on_list.1
  refine { inv with places := fun other => ?_, listed := fun other => ?_, gone := fun gone => ?_ }
  · have place := inv.places other
    simp only [State.removeDelayedTask, count_erase, count_cons]
    grind
  · have here := inv.listed other
    simp only [State.removeDelayedTask, count_erase]
    grind
  · simp [State.removeDelayedTask, inv.gone gone]

lemma Inv.deliver (inv : Inv none st) (moved : step st (.deliver task) = some next) :
    Inv none next ∧ next.failed = st.failed := by
  obtain ⟨⟨mem, _, _⟩, rfl⟩ := of_guard moved
  have taken := inv.take mem
  have alive : st.gone = false := by
    by_contra gone
    have empty := inv.gone (by simpa using gone)
    have here := inv.listed task
    have present := count_pos_iff.mpr mem
    simp [empty] at here
    omega
  split
  · exact ⟨taken.remove, by simp [State.removeDelayedTask, taken.on_list.2]⟩
  refine ⟨{ taken with listed := fun other => ?_, runs := fun other => ?_, lateRuns := ?_ }, rfl⟩
  · have here := taken.listed other
    grind
  · have ran := inv.runs other
    have present := count_pos_iff.mpr mem
    grind
  · simp [alive, inv.lateRuns]

lemma Inv.finish (inv : Inv none st) (moved : step st .finish = some next) :
    Inv none next ∧ next.failed = st.failed := by
  simp only [step] at moved
  split at moved
  next task running =>
    obtain ⟨_, rfl⟩ := of_guard moved
    have held : Inv (some task) { st with running := none } := by
      refine { inv with listed := fun other => ?_ }
      have here := inv.listed other
      grind
    exact ⟨held.remove, by simp [State.removeDelayedTask, held.on_list.2]⟩
  · cases moved

/-- Cancelling fails exactly for the task that runs. -/
lemma Inv.cancelNext (inv : Inv none st) (moved : step st .cancelNext = some next) :
    (next.failed = false ↔ st.failed = false ∧ Allowed st .cancelNext) ∧
      (next.failed = false → Inv none next) := by
  simp only [step] at moved
  split at moved
  next task rest list =>
    obtain ⟨_, rfl⟩ := of_guard moved
    have here := inv.listed task
    have place := inv.places task
    have found : task ∈ st.posted ↔ st.running ≠ some task := by
      rw [← count_pos_iff]
      rw [list, count_cons_self] at place
      grind
    have missing : task ∉ st.destroyed := by
      rw [← count_eq_zero]
      rw [list, count_cons_self] at place
      grind
    refine ⟨?_, fun sound => ?_⟩
    · simp [State.removeDelayedTask, Allowed, missing, list, found]
      grind
    · have mem : task ∈ st.posted := by
        simp [State.removeDelayedTask] at sound
        exact sound.1.2
      have taken := (inv.take mem).remove
      exact { taken with }
  · cases moved

lemma Inv.step (inv : Inv none st) (moved : step st label = some next) :
    (next.failed = false ↔ st.failed = false ∧ Allowed st label) ∧
      (next.failed = false → Inv none next) := by
  have quiet : label ≠ .cancelNext → next.failed = st.failed → Inv none next →
      (next.failed = false ↔ st.failed = false ∧ Allowed st label) ∧
        (next.failed = false → Inv none next) := fun other same kept =>
    ⟨by rw [same]; exact (and_iff_left fun cancels => absurd cancels other).symm, fun _ => kept⟩
  cases label with
  | post =>
    obtain ⟨alive, rfl⟩ := of_guard moved
    refine quiet nofun ?_ (inv.post (by simpa using alive))
    unfold State.post
    split <;> rfl
  | deliver =>
    obtain ⟨kept, same⟩ := inv.deliver moved
    exact quiet nofun same kept
  | finish =>
    obtain ⟨kept, same⟩ := inv.finish moved
    exact quiet nofun same kept
  | beginDestroy =>
    obtain ⟨-, rfl⟩ := of_guard moved
    exact quiet nofun rfl { inv with }
  | cancelNext => exact inv.cancelNext moved
  | endDestroy =>
    obtain ⟨⟨-, -, empty⟩, rfl⟩ := of_guard moved
    exact quiet nofun rfl { inv with gone := fun _ => empty }
  | shutdown =>
    cases moved
    exact quiet nofun rfl { inv with }

/-- Every delayed task is destroyed once and run at most once, not after the destructor has
returned, and nothing fails. -/
structure Proper (st : State) : Prop where
  destroyed : ∀ task, st.destroyed.count task ≤ 1
  all : st.gone → ∀ task < st.count, st.destroyed.count task = 1
  runs : ∀ task, st.runs.count task ≤ 1
  late : st.lateRuns = 0
  sound : st.failed = false

lemma Inv.proper (inv : Inv none st) (sound : st.failed = false) : Proper st where
  destroyed task := by
    have place := inv.places task
    split at place <;> omega
  all gone task known := by
    have place := inv.places task
    rwa [if_pos known, inv.gone gone, count_nil, Nat.zero_add] at place
  runs task := by
    have ran := inv.runs task
    split at ran <;> omega
  late := inv.lateRuns
  sound := sound

/-- Every state of a history is proper exactly if the destructor never comes to a task whose
handler is running. -/
theorem proper_along_iff (labels : List Label) :
    Along step (fun _ _ next => Proper next) {} labels ↔ Admissible step Allowed {} labels := by
  have start : Inv none {} := ⟨by simp, by simp, by simp, by simp, rfl⟩
  refine @along_iff_admissible _ _ step (fun st => st.failed = false ∧ Inv none st) Allowed
    _ _ labels ?_ ?_ ⟨rfl, start⟩
  · rintro st label next ⟨sound, inv⟩ allowed stepped
    obtain ⟨fails, kept⟩ := inv.step stepped
    have sound' := fails.mpr ⟨sound, allowed⟩
    exact ⟨sound', kept sound'⟩
  · rintro st label next ⟨sound, inv⟩ stepped
    obtain ⟨fails, kept⟩ := inv.step stepped
    exact ⟨fun proper => (fails.mp proper.sound).2, fun allowed =>
      have sound' := fails.mpr ⟨sound, allowed⟩
      (kept sound').proper sound'⟩

end Steps

/-- A task destroys the scope that runs it: it is not there to be cancelled, is deleted while
it runs, and its handler then removes it again. -/
theorem destroyed_while_running :
    ∃ final, run step {} [.post, .deliver 0, .beginDestroy, .cancelNext, .endDestroy, .finish] = some final ∧
      final.failed = true ∧ final.destroyed = [0, 0] :=
  ⟨_, rfl, rfl, rfl⟩

end FuchsiaSdk.TaskScope
