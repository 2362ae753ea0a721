import FuchsiaSdk.Machine

/-! The lifetime of `fpromise::scope` (`scope.cc`, `scope.h`). One step is one
section under `mutex_` or one atomic operation on `acquired_promise_count_`;
what a thread deletes after it left the lock is a step of its own. The linked
list of promise holders is the list of their ids, newest first.

`acquired_promise_count_` counts the promises that run, and its top bit says
that the scope was exited. A poll adds one before it knows which, and takes it
back when the bit was set. `exit` does not add the bit: it overwrites the whole
counter, so it may fall between the two halves of such a poll. -/
namespace FuchsiaSdk.PromiseScope
open Machine
open List

/-- `scope_exited`, the top bit of a `uint64_t`. -/
def scopeExited : Nat := 2 ^ 63

/-- The test `count & scope_exited`. -/
def exitedBit (count : Nat) : Bool := count / scopeExited % 2 == 1

/-- `fetch_add(1u)` and `fetch_sub(1u)` on a `uint64_t`. -/
def fetchAdd (count : Nat) : Nat := (count + 1) % 2 ^ 64
def fetchSub (count : Nat) : Nat := (count + (2 ^ 64 - 1)) % 2 ^ 64

abbrev PromiseId : Type := Nat

/-- Where the thread that owns a wrapper stands with it. -/
inductive Phase where
  | idle
  /-- `try_acquire_promise` succeeded and the wrapped promise runs. -/
  | running
  /-- `try_acquire_promise` found the scope exited and has not yet taken its
  increment back. -/
  | retreating
  | dropped
  deriving DecidableEq, Repr

/-- A `scoped_continuation` and its `promise_handle`, which is empty when the
promise was wrapped after the exit. -/
structure Wrapper where
  holder : Option PromiseId
  phase : Phase
  deriving DecidableEq, Repr

structure State where
  acquiredPromiseCount : Nat := 0
  scopeWasDestroyed : Bool := false
  promiseHandleCount : Nat := 0
  /-- The chain that starts at `head_promise_holder_`. -/
  linked : List PromiseId := []
  wrappers : List Wrapper := []
  /-- Holders unlinked under the lock and not yet deleted. -/
  doomed : List PromiseId := []
  /-- Threads that decided under the lock to delete the state. -/
  stateDoomed : Nat := 0
  -- History, read by no step: promises passed to `adopt_promise` so far, holders deleted,
  -- exits, acquisitions that succeeded after an exit, deletions of the state.
  adopted : Nat := 0
  destroyed : List PromiseId := []
  exits : Nat := 0
  lateRuns : Nat := 0
  stateDeleted : Nat := 0
  deriving DecidableEq, Repr

inductive Label where
  | wrap
  | poll (wrapper : Nat)
  | retreat (wrapper : Nat)
  | finishRun (wrapper : Nat)
  | drop (wrapper : Nat)
  | exit
  | destroyScope
  | deletePromise (promise : PromiseId)
  | deleteState
  deriving DecidableEq, Repr

namespace State

def exited (st : State) : Bool := exitedBit st.acquiredPromiseCount

def shouldDeleteSelf (st : State) : Bool :=
  st.scopeWasDestroyed && st.promiseHandleCount == 0

/-- The thread deletes the state once it has left the lock if
`should_delete_self` says so. -/
def deleteIfDue (st : State) : State :=
  if st.shouldDeleteSelf then { st with stateDoomed := st.stateDoomed + 1 } else st

/-- `adopt_promise`. -/
def adoptPromise (st : State) : State :=
  let promise := st.adopted
  let st := { st with adopted := st.adopted + 1 }
  if st.exited then
    { st with
      doomed := promise :: st.doomed
      wrappers := st.wrappers ++ [⟨none, .idle⟩] }
  else
    { st with
      linked := promise :: st.linked
      promiseHandleCount := st.promiseHandleCount + 1
      wrappers := st.wrappers ++ [⟨some promise, .idle⟩] }

/-- The `fetch_add` of `try_acquire_promise` and the decision on what it
returned. -/
def tryAcquirePromise (st : State) (wrapper : Nat) (holder : Option PromiseId) : State :=
  match holder with
  | none => st
  | some _ =>
    let prior := st.acquiredPromiseCount
    let st := { st with acquiredPromiseCount := fetchAdd prior }
    if exitedBit prior then
      { st with wrappers := st.wrappers.set wrapper ⟨holder, .retreating⟩ }
    else
      { st with
        wrappers := st.wrappers.set wrapper ⟨holder, .running⟩
        lateRuns := if 0 < st.exits then st.lateRuns + 1 else st.lateRuns }

/-- The `fetch_sub` of `release_promise`, and the compensating one of
`try_acquire_promise`. -/
def releasePromise (st : State) (wrapper : Nat) (holder : Option PromiseId) : State :=
  { st with
    acquiredPromiseCount := fetchSub st.acquiredPromiseCount
    wrappers := st.wrappers.set wrapper ⟨holder, .idle⟩ }

/-- `drop_promise`. -/
def dropPromise (st : State) (wrapper : Nat) (holder : Option PromiseId) : State :=
  let st := { st with wrappers := st.wrappers.set wrapper ⟨holder, .dropped⟩ }
  match holder with
  | none => st
  | some promise =>
    let st := { st with promiseHandleCount := st.promiseHandleCount - 1 }
    if st.exited then
      st.deleteIfDue
    else
      { st with linked := st.linked.erase promise, doomed := promise :: st.doomed }

/-- `exit(scope_was_destroyed)`. -/
def exitScope (st : State) (destroyed : Bool) : State :=
  let prior := st.acquiredPromiseCount
  let st := { st with
    scopeWasDestroyed := destroyed
    acquiredPromiseCount := scopeExited
    exits := st.exits + 1 }
  let st :=
    if exitedBit prior then st
    else { st with doomed := st.linked ++ st.doomed, linked := [] }
  st.deleteIfDue

/-- No wrapped promise is between a successful acquire and its release. -/
def noneRunning (st : State) : Bool := st.wrappers.all fun wrapper => wrapper.phase != .running

end State

/-- A `promise_handle` is two pointers, so a 64-bit address space has room for
at most this many of them. -/
def maxHandles : Nat := 2 ^ 60

/-- One step. `wrap` and `exit` need the scope object; `exit` and `~scope` are
taken only while no wrapped promise runs, as the header asks. -/
def step (st : State) : Label → Option State
  | .wrap =>
    if !st.scopeWasDestroyed ∧ st.promiseHandleCount < maxHandles then
      some st.adoptPromise
    else none
  | .poll wrapper =>
    match st.wrappers[wrapper]? with
    | some ⟨holder, .idle⟩ => some (st.tryAcquirePromise wrapper holder)
    | _ => none
  | .retreat wrapper =>
    match st.wrappers[wrapper]? with
    | some ⟨holder, .retreating⟩ => some (st.releasePromise wrapper holder)
    | _ => none
  | .finishRun wrapper =>
    match st.wrappers[wrapper]? with
    | some ⟨holder, .running⟩ => some (st.releasePromise wrapper holder)
    | _ => none
  | .drop wrapper =>
    match st.wrappers[wrapper]? with
    | some ⟨holder, .idle⟩ => some (st.dropPromise wrapper holder)
    | _ => none
  | .exit =>
    if !st.scopeWasDestroyed ∧ st.noneRunning then some (st.exitScope false) else none
  | .destroyScope =>
    if !st.scopeWasDestroyed ∧ st.noneRunning then some (st.exitScope true) else none
  | .deletePromise promise =>
    if promise ∈ st.doomed then
      some { st with
        doomed := st.doomed.erase promise, destroyed := promise :: st.destroyed }
    else none
  | .deleteState =>
    if 0 < st.stateDoomed then
      some { st with
        stateDoomed := st.stateDoomed - 1, stateDeleted := st.stateDeleted + 1 }
    else none

/-! ## What every step keeps -/

def Wrapper.isRunning (wrapper : Wrapper) : Bool := wrapper.phase == .running
def Wrapper.isRetreating (wrapper : Wrapper) : Bool := wrapper.phase == .retreating
/-- The wrapper still owns a valid handle. -/
def Wrapper.isLive (wrapper : Wrapper) : Bool := wrapper.holder.isSome && wrapper.phase != .dropped
def Wrapper.holds (promise : PromiseId) (wrapper : Wrapper) : Bool :=
  wrapper.holder == some promise && wrapper.phase != .dropped

/-- The counter, the exited bit, the handle count and the list agree with the
wrappers, and every promise is in exactly one place. -/
structure Inv (st : State) : Prop where
  count : st.acquiredPromiseCount =
    st.wrappers.countP Wrapper.isRunning + st.wrappers.countP Wrapper.isRetreating +
      if 0 < st.exits then scopeExited else 0
  room : st.promiseHandleCount ≤ maxHandles
  handles : st.promiseHandleCount = st.wrappers.countP Wrapper.isLive
  polled : ∀ wrapper ∈ st.wrappers,
    wrapper.phase = .running ∨ wrapper.phase = .retreating → wrapper.isLive = true
  running_before : 0 < st.exits → st.wrappers.countP Wrapper.isRunning = 0
  retreating_after : st.exits = 0 → st.wrappers.countP Wrapper.isRetreating = 0
  places : ∀ promise, st.linked.count promise + st.doomed.count promise +
    st.destroyed.count promise = if promise < st.adopted then 1 else 0
  owned : st.exits = 0 →
    ∀ promise, st.linked.count promise = st.wrappers.countP (Wrapper.holds promise)
  emptied : 0 < st.exits → st.linked = []
  destroyed_exited : st.scopeWasDestroyed = true → 0 < st.exits
  deletion : st.stateDoomed + st.stateDeleted =
    if st.scopeWasDestroyed = true ∧ st.promiseHandleCount = 0 then 1 else 0
  late : st.lateRuns = 0

/-- The condition on a step: an exit does not run while a poll is between its
failed `fetch_add` and the `fetch_sub` that takes it back. -/
def ExitsUndisturbed (st : State) (label : Label) : Prop :=
  label = .exit ∨ label = .destroyScope → ∀ wrapper ∈ st.wrappers, wrapper.phase ≠ .retreating

instance (st : State) (label : Label) : Decidable (ExitsUndisturbed st label) :=
  inferInstanceAs (Decidable (_ → _))

open Wrapper (isRunning isRetreating isLive holds)

lemma State.deleteIfDue_eq (st : State) : st.deleteIfDue = { st with
      stateDoomed := st.stateDoomed +
        if st.scopeWasDestroyed = true ∧ st.promiseHandleCount = 0 then 1 else 0 } := by
  unfold deleteIfDue shouldDeleteSelf
  by_cases due : st.scopeWasDestroyed = true ∧ st.promiseHandleCount = 0
  · simp [due]
  · rw [if_neg (by simpa using due), if_neg due, Nat.add_zero]

lemma inv_init : Inv {} := by
  constructor <;> simp

section

variable (inv : Inv st)
include inv

/-- The polls under way are no more than the handles. -/
lemma Inv.polls_le : st.wrappers.countP isRunning + st.wrappers.countP isRetreating ≤
      st.promiseHandleCount := by
  rw [inv.handles]
  apply countP_add_le
  · intro wrapper _ running
    simp_all [isRunning, isRetreating]
  · intro wrapper mem running
    exact inv.polled wrapper mem (Or.inl (by simpa [isRunning] using running))
  · intro wrapper mem retreating
    exact inv.polled wrapper mem (Or.inr (by simpa [isRetreating] using retreating))

/-- The exited bit is set exactly after the first exit. -/
lemma Inv.exitedBit_iff : exitedBit st.acquiredPromiseCount = true ↔ 0 < st.exits := by
  have polls := inv.polls_le
  have room := inv.room
  have count := inv.count
  simp only [exitedBit, beq_iff_eq, scopeExited, maxHandles] at *
  split at count <;> omega

lemma Inv.exitedBit_clear (inside : ¬0 < st.exits) : exitedBit st.acquiredPromiseCount = false := by
  simpa using fun set => inside (inv.exitedBit_iff.mp set)

lemma Inv.fetchAdd_eq : fetchAdd st.acquiredPromiseCount = st.acquiredPromiseCount + 1 := by
  have polls := inv.polls_le
  have room := inv.room
  have count := inv.count
  simp only [fetchAdd, scopeExited, maxHandles] at *
  split at count <;> omega

/-- A poll that has added to the counter can take it back. -/
lemma Inv.fetchSub_eq (polling : 0 < st.wrappers.countP isRunning + st.wrappers.countP isRetreating) :
    fetchSub st.acquiredPromiseCount + 1 = st.acquiredPromiseCount := by
  have polls := inv.polls_le
  have room := inv.room
  have count := inv.count
  simp only [fetchSub, scopeExited, maxHandles] at *
  split at count <;> omega

private lemma wrap_keeps (alive : st.scopeWasDestroyed = false)
    (room : st.promiseHandleCount < maxHandles) : Inv st.adoptPromise := by
  have count := inv.count
  have polled := inv.polled
  have places := inv.places
  have deletion := inv.deletion
  by_cases out : 0 < st.exits
  · simp only [State.adoptPromise, State.exited, inv.exitedBit_iff.mpr out, if_true]
    refine { inv with
        count := ?count, handles := ?handles, polled := ?polled,
        running_before := ?running_before, retreating_after := ?retreating_after,
        places := ?places, owned := ?owned }
    case count => simpa [isRunning, isRetreating] using count
    case handles => simpa [isLive] using inv.handles
    case polled => grind
    case running_before => simpa [isRunning] using inv.running_before
    case retreating_after => simpa [isRetreating] using inv.retreating_after
    case places => intro promise; have place := places promise; grind
    case owned => intro inside; exact absurd out (by simpa using inside)
  · simp only [State.adoptPromise, State.exited, inv.exitedBit_clear out]
    refine { inv with
        count := ?count, room := room, handles := ?handles, polled := ?polled,
        running_before := ?running_before, retreating_after := ?retreating_after,
        places := ?places, owned := ?owned, emptied := fun inside => absurd inside out,
        deletion := ?deletion }
    case count => simpa [isRunning, isRetreating] using count
    case handles => simpa [isLive] using inv.handles
    case polled => grind
    case running_before => simpa [isRunning] using inv.running_before
    case retreating_after => simpa [isRetreating] using inv.retreating_after
    case places => intro promise; have place := places promise; grind
    case owned =>
      intro inside promise
      have before := inv.owned inside promise
      simp [holds, countP_append, count_cons, before]
    case deletion => simpa [alive] using deletion

/-- A poll moves one live wrapper between phases other than dropped; only the
counter has to be looked at. -/
lemma Inv.rephase (found : st.wrappers[wrapper]? = some ⟨some promise, old⟩)
    (oldLive : old ≠ .dropped) (newLive : new ≠ .dropped)
    (balance : acquired + (if old = .idle then 0 else 1) =
      st.acquiredPromiseCount + (if new = .idle then 0 else 1))
    (running : new = .running → st.exits = 0) (retreating : new = .retreating → 0 < st.exits) :
    Inv { st with
      acquiredPromiseCount := acquired
      wrappers := st.wrappers.set wrapper ⟨some promise, new⟩ } := by
  have runs := countP_set_add found ⟨some promise, new⟩ isRunning
  have retreats := countP_set_add found ⟨some promise, new⟩ isRetreating
  have lives := countP_set_add found ⟨some promise, new⟩ isLive
  have owns := fun other =>
    countP_set_add found ⟨some promise, new⟩ (holds other)
  simp only [isRunning, isRetreating, beq_iff_eq] at runs retreats
  simp only [isLive, Option.isSome_some, Bool.true_and, bne_iff_ne, oldLive, newLive,
    ne_eq, not_false_eq_true, if_true, Nat.add_right_cancel_iff] at lives
  simp only [holds, Bool.and_eq_true, bne_iff_ne, oldLive, newLive, ne_eq,
    not_false_eq_true, and_true, Nat.add_right_cancel_iff] at owns
  have count := inv.count
  refine { inv with
      count := ?count, running_before := ?running_before, retreating_after := ?retreating_after,
      polled := ?polled, handles := ?handles, owned := ?owned }
  case count =>
    cases old <;> cases new <;> simp_all only [reduceCtorEq, if_true, if_false, ne_eq,
      not_true_eq_false, forall_const] <;> omega
  case running_before =>
    intro out
    have none := inv.running_before out
    cases old <;> cases new <;> simp_all only [reduceCtorEq, if_true, if_false, ne_eq,
      not_true_eq_false, forall_const] <;> omega
  case retreating_after =>
    intro inside
    have none := inv.retreating_after inside
    cases old <;> cases new <;> simp_all only [reduceCtorEq, if_true, if_false, ne_eq,
      not_true_eq_false, forall_const] <;> omega
  case polled =>
    intro other mem phase
    rcases mem_or_eq_of_mem_set mem with mem | rfl
    · exact inv.polled other mem phase
    · simp [isLive, newLive]
  case handles => exact inv.handles.trans lives.symm
  case owned =>
    intro inside other
    exact (inv.owned inside other).trans (owns other).symm

end

lemma countP_pos_of_phase {wrappers : List Wrapper} {wrapper : Nat}
    (found : wrappers[wrapper]? = some party) (is : p party = true) : 0 < wrappers.countP p :=
  countP_pos_iff.mpr ⟨party, mem_of_getElem? found, is⟩

section

variable (inv : Inv st)
include inv

private lemma poll_keeps (found : st.wrappers[wrapper]? = some ⟨holder, .idle⟩) :
    Inv (st.tryAcquirePromise wrapper holder) := by
  cases holder with
  | none => exact inv
  | some =>
    have added := inv.fetchAdd_eq
    by_cases out : 0 < st.exits
    · simp only [State.tryAcquirePromise, inv.exitedBit_iff.mpr out, if_true]
      exact inv.rephase found (by decide) (by decide) (by simpa using added) (by simp)
        (fun _ => out)
    · simp only [State.tryAcquirePromise, inv.exitedBit_clear out, out, if_false, Bool.false_eq_true]
      exact inv.rephase found (by decide) (by decide) (by simpa using added)
        (fun _ => by omega) (by simp)

lemma releasePromise_keeps {phase : Phase} (found : st.wrappers[wrapper]? = some ⟨holder, phase⟩)
    (polling : phase = .running ∨ phase = .retreating) : Inv (st.releasePromise wrapper holder) := by
  have live := inv.polled _ (mem_of_getElem? found) polling
  simp only [isLive, Bool.and_eq_true] at live
  obtain ⟨_, rfl⟩ := Option.isSome_iff_exists.mp live.1
  rcases polling with rfl | rfl
  · have counted := countP_pos_of_phase (p := isRunning) found rfl
    have back := inv.fetchSub_eq (by omega)
    exact inv.rephase found (by decide) (by decide) (by simpa using back) (by simp) (by simp)
  · have counted := countP_pos_of_phase (p := isRetreating) found rfl
    have back := inv.fetchSub_eq (by omega)
    exact inv.rephase found (by decide) (by decide) (by simpa using back) (by simp) (by simp)

/-- A dropped wrapper is in no poll, so the counter does not see it go. -/
lemma Inv.dropped (found : st.wrappers[wrapper]? = some ⟨holder, .idle⟩) :
    (st.wrappers.set wrapper ⟨holder, .dropped⟩).countP isRunning = st.wrappers.countP isRunning ∧
      (st.wrappers.set wrapper ⟨holder, .dropped⟩).countP isRetreating =
        st.wrappers.countP isRetreating ∧ ∀ other ∈ st.wrappers.set wrapper ⟨holder, .dropped⟩,
        other.phase = .running ∨ other.phase = .retreating → other.isLive = true := by
  have runs := countP_set_add found ⟨holder, .dropped⟩ isRunning
  have retreats := countP_set_add found ⟨holder, .dropped⟩ isRetreating
  refine ⟨by simpa [isRunning] using runs,
    by simpa [isRetreating] using retreats, ?_⟩
  intro other mem phase
  rcases mem_or_eq_of_mem_set mem with mem | rfl
  · exact inv.polled other mem phase
  · simp at phase

private lemma drop_empty_keeps (found : st.wrappers[wrapper]? = some ⟨none, .idle⟩) :
    Inv (st.dropPromise wrapper none) := by
  obtain ⟨runs, retreats, polled⟩ := inv.dropped found
  have lives := countP_set_add found ⟨none, .dropped⟩ isLive
  have owns := fun other => countP_set_add found ⟨none, .dropped⟩ (holds other)
  simp [isLive, holds] at lives owns
  simp only [State.dropPromise]
  refine { inv with
      count := ?_, handles := inv.handles.trans lives.symm, polled := polled,
      running_before := ?_, retreating_after := ?_, owned := ?_ }
  · simpa only [runs, retreats] using inv.count
  · simpa only [runs] using inv.running_before
  · simpa only [retreats] using inv.retreating_after
  · simpa only [owns] using inv.owned

private lemma drop_keeps (found : st.wrappers[wrapper]? = some ⟨some promise, .idle⟩) :
    Inv (st.dropPromise wrapper (some promise)) := by
  obtain ⟨runs, retreats, polled⟩ := inv.dropped found
  have lives := countP_set_add found ⟨some promise, .dropped⟩ isLive
  have owns := fun other =>
    countP_set_add found ⟨some promise, .dropped⟩ (holds other)
  simp [isLive, holds] at lives owns
  have handles := inv.handles
  have room := inv.room
  have deletion := inv.deletion
  rw [if_neg (by omega)] at deletion
  by_cases out : 0 < st.exits
  · simp only [State.dropPromise, State.exited, inv.exitedBit_iff.mpr out, if_true,
      State.deleteIfDue_eq]
    refine { inv with
        count := ?count, handles := ?handles, polled := polled, running_before := ?running_before,
        retreating_after := ?retreating_after, owned := ?owned, room := ?room,
        deletion := ?deletion }
    case count => simpa only [runs, retreats] using inv.count
    case handles => dsimp only; omega
    case running_before => simpa only [runs] using inv.running_before
    case retreating_after => simpa only [retreats] using inv.retreating_after
    case owned => intro inside; dsimp only at inside; omega
    case room => dsimp only; omega
    case deletion => dsimp only; omega
  · -- Before the exit the holder is still linked, and only this wrapper holds it.
    have owned := inv.owned (by omega)
    have held := owned promise
    have one := owns promise
    have alive : st.scopeWasDestroyed = false := by
      simpa using fun gone => out (inv.destroyed_exited gone)
    simp only [State.dropPromise, State.exited, inv.exitedBit_clear out, Bool.false_eq_true,
      if_false]
    refine { inv with
        count := ?count, handles := ?handles, polled := polled, running_before := ?running_before,
        retreating_after := ?retreating_after, owned := ?owned, room := ?room, places := ?places,
        emptied := fun inside => absurd inside out, deletion := ?deletion }
    case count => simpa only [runs, retreats] using inv.count
    case handles => dsimp only; omega
    case running_before => simpa only [runs] using inv.running_before
    case retreating_after => simpa only [retreats] using inv.retreating_after
    case owned =>
      intro _ other
      have before := owned other
      have change := owns other
      rw [count_erase]
      grind
    case room => dsimp only; omega
    case places =>
      intro other
      have place := inv.places other
      rw [count_erase, count_cons]
      grind
    case deletion => simpa [alive] using deletion

lemma exit_keeps (alive : st.scopeWasDestroyed = false) (stopped : st.noneRunning = true)
    (quiet : ∀ wrapper ∈ st.wrappers, wrapper.phase ≠ .retreating) : Inv (st.exitScope destroyed) := by
  have running : st.wrappers.countP isRunning = 0 := by
    simpa [countP_eq_zero, isRunning, State.noneRunning] using stopped
  have retreating : st.wrappers.countP isRetreating = 0 := by
    simpa [countP_eq_zero, isRetreating] using quiet
  have deletion := inv.deletion
  rw [alive, if_neg (by simp)] at deletion
  -- A later exit finds nothing linked, so both branches move the whole list.
  have moved : st.exitScope destroyed = { st with
      scopeWasDestroyed := destroyed
      acquiredPromiseCount := scopeExited
      exits := st.exits + 1
      linked := []
      doomed := st.linked ++ st.doomed
      stateDoomed := st.stateDoomed +
        if destroyed = true ∧ st.promiseHandleCount = 0 then 1 else 0 } := by
    by_cases out : 0 < st.exits
    · simp [State.exitScope, State.deleteIfDue_eq, inv.exitedBit_iff.mpr out, inv.emptied out]
    · simp [State.exitScope, State.deleteIfDue_eq, inv.exitedBit_clear out]
  rw [moved]
  refine { inv with
      count := ?count, running_before := ?running_before, retreating_after := ?retreating_after,
      owned := ?owned, places := ?places, emptied := ?emptied,
      destroyed_exited := ?destroyed_exited, deletion := ?deletion }
  case count => simp [running, retreating]
  case running_before => exact fun _ => running
  case retreating_after => exact fun _ => retreating
  case owned => intro inside; simp at inside
  case places =>
    intro promise
    have place := inv.places promise
    simp only [count_nil, count_append]
    omega
  case emptied => exact fun _ => rfl
  case destroyed_exited => simp
  case deletion => dsimp only; omega

private lemma deletePromise_keeps (doomed : promise ∈ st.doomed) : Inv { st with
      doomed := st.doomed.erase promise, destroyed := promise :: st.destroyed } := by
  have present := count_pos_iff.mpr doomed
  refine { inv with places := ?_ }
  intro other
  have place := inv.places other
  rw [count_erase, count_cons]
  grind

private lemma deleteState_keeps (due : 0 < st.stateDoomed) : Inv { st with
      stateDoomed := st.stateDoomed - 1, stateDeleted := st.stateDeleted + 1 } := by
  have deletion := inv.deletion
  refine { inv with deletion := ?_ }
  dsimp only
  omega

lemma step_keeps (quiet : ExitsUndisturbed st label)
    (moved : step st label = some later) : Inv later := by
  cases label with
  | wrap =>
    obtain ⟨⟨alive, room⟩, rfl⟩ := of_guard moved
    exact wrap_keeps inv (by simpa using alive) room
  | poll wrapper =>
    simp only [step] at moved
    split at moved
    · obtain rfl := Option.some.inj moved
      exact poll_keeps inv ‹_›
    · cases moved
  | retreat wrapper =>
    simp only [step] at moved
    split at moved
    · obtain rfl := Option.some.inj moved
      exact releasePromise_keeps inv ‹_› (.inr rfl)
    · cases moved
  | finishRun wrapper =>
    simp only [step] at moved
    split at moved
    · obtain rfl := Option.some.inj moved
      exact releasePromise_keeps inv ‹_› (.inl rfl)
    · cases moved
  | drop wrapper =>
    simp only [step] at moved
    split at moved
    · obtain rfl := Option.some.inj moved
      rename_i holder found
      cases holder with
      | none => exact drop_empty_keeps inv found
      | some promise => exact drop_keeps inv found
    · cases moved
  | exit =>
    obtain ⟨⟨alive, stopped⟩, rfl⟩ := of_guard moved
    exact exit_keeps inv (by simpa using alive) stopped (quiet (Or.inl rfl))
  | destroyScope =>
    obtain ⟨⟨alive, stopped⟩, rfl⟩ := of_guard moved
    exact exit_keeps inv (by simpa using alive) stopped (quiet (Or.inr rfl))
  | deletePromise promise =>
    obtain ⟨doomed, rfl⟩ := of_guard moved
    exact deletePromise_keeps inv doomed
  | deleteState =>
    obtain ⟨due, rfl⟩ := of_guard moved
    exact deleteState_keeps inv due

end

/-! ## Whole runs -/

/-- What has to hold when the state object is deleted: the scope is gone, every
valid handle was dropped, nobody is inside a poll, no holder is linked (the
assertions of `~state`) and it was not deleted before. -/
def DeletedLast (st : State) (label : Label) (_ : State) : Prop :=
  label = .deleteState →
    st.scopeWasDestroyed = true ∧ st.wrappers.countP isLive = 0 ∧
      st.acquiredPromiseCount = scopeExited ∧ st.linked = [] ∧ st.stateDeleted = 0

/-- Nothing is left to do: the scope is gone, every wrapper was dropped and
every thread has deleted what it took out under the lock. -/
def Quiescent (st : State) : Prop :=
  st.scopeWasDestroyed = true ∧ (∀ wrapper ∈ st.wrappers, wrapper.phase = .dropped) ∧
    st.doomed = [] ∧ st.stateDoomed = 0

instance (st : State) : Decidable (Quiescent st) :=
  inferInstanceAs (Decidable (_ ∧ _))

lemma Inv.deletedLast (inv : Inv st) (moved : step st label = some later) :
    DeletedLast st label later := by
  rintro rfl
  obtain ⟨due, -⟩ := Option.ite_none_right_eq_some.mp moved
  have deletion := inv.deletion
  by_cases beyond : st.scopeWasDestroyed = true ∧ st.promiseHandleCount = 0
  · obtain ⟨gone, dropped⟩ := beyond
    have polls := inv.polls_le
    have count := inv.count
    rw [if_pos ⟨gone, dropped⟩] at deletion
    rw [if_pos (inv.destroyed_exited gone)] at count
    have linked := inv.emptied (inv.destroyed_exited gone)
    exact ⟨gone, inv.handles ▸ dropped, by omega, linked, by omega⟩
  · rw [if_neg beyond] at deletion
    omega

lemma Inv.destroyed_once (inv : Inv st) (promise : PromiseId) : st.destroyed.count promise ≤ 1 := by
  have place := inv.places promise
  split at place <;> omega

lemma Inv.quiescent (inv : Inv st) (quiescent : Quiescent st) :
    (∀ promise < st.adopted, st.destroyed.count promise = 1) ∧ st.stateDeleted = 1 := by
  obtain ⟨gone, dropped, doomed, _⟩ := quiescent
  have out := inv.destroyed_exited gone
  have none : st.promiseHandleCount = 0 := by
    rw [inv.handles, countP_eq_zero]
    intro wrapper mem
    simp [isLive, dropped wrapper mem]
  constructor
  · intro promise adopted
    have place := inv.places promise
    rw [inv.emptied out, doomed, if_pos adopted] at place
    simpa using place
  · have deletion := inv.deletion
    rw [if_pos ⟨gone, none⟩] at deletion
    omega

theorem scope_lifetime (undisturbed : Admissible step ExitsUndisturbed {} labels)
    (ran : run step {} labels = some st) :
    (∀ promise, st.destroyed.count promise ≤ 1) ∧
    (0 < st.exits → st.exited = true) ∧ st.lateRuns = 0 ∧
    Along step DeletedLast {} labels ∧
    (Quiescent st →
      (∀ promise < st.adopted, st.destroyed.count promise = 1) ∧ st.stateDeleted = 1) := by
  have keeps : ∀ st label next, Inv st → ExitsUndisturbed st label →
      step st label = some next → Inv next :=
    fun _ _ _ inv quiet stepped => step_keeps inv quiet stepped
  have inv : Inv st := run_invariant keeps inv_init undisturbed ran
  refine ⟨inv.destroyed_once, inv.exitedBit_iff.mpr, inv.late, ?_, inv.quiescent⟩
  exact along_of_invariant keeps (fun _ _ _ inv _ stepped => inv.deletedLast stepped) inv_init
    undisturbed

/-- Two promises; one is dropped before the exit, the other is polled after it
and dropped after the scope is gone. -/
def orderly : List Label :=
  [.wrap, .wrap, .poll 0, .finishRun 0, .drop 0, .deletePromise 0, .exit, .poll 1, .retreat 1,
    .deletePromise 1, .destroyScope, .drop 1, .deleteState]

theorem scope_lifetime_orderly :
    ∃ st, Admissible step ExitsUndisturbed {} orderly ∧ run step {} orderly = some st ∧
      Quiescent st ∧ st.adopted = 2 ∧ st.lateRuns = 0 ∧ st.stateDeleted = 1 := by
  obtain ⟨st, ran, quiescent, adopted⟩ : ∃ st, run step {} orderly = some st ∧
      Quiescent st ∧ st.adopted = 2 := ⟨_, rfl, by decide, rfl⟩
  have undisturbed : Admissible step ExitsUndisturbed {} orderly := by decide
  obtain ⟨-, -, late, -, finished⟩ := scope_lifetime undisturbed ran
  exact ⟨st, undisturbed, ran, quiescent, adopted, late, (finished quiescent).2⟩

/-- A second exit falls between the two halves of a failed poll: the
compensating decrement then takes the exited bit away, and the next poll of the
wrapper is let in. -/
theorem exit_during_failed_poll :
    ∃ before after, run step {} [.wrap, .exit, .poll 0, .exit, .retreat 0] = some before ∧
      before.noneRunning = true ∧ 0 < before.exits ∧ before.exited = false ∧
      step before (.poll 0) = some after ∧ after.lateRuns = 1 := by
  exact ⟨_, _, rfl, by decide, by decide, by decide, rfl, by decide⟩

end FuchsiaSdk.PromiseScope
