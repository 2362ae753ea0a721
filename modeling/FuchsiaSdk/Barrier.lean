import FuchsiaSdk.BridgeChain
import FuchsiaSdk.Machine

/-! `fpromise::barrier`. The calls of `wrap` and `sync` are the members of one chain
of bridges. A wrapped promise is not gated: only when it has completed, its handler
schedules a task that waits for the prior consumer and then lets go of the completer
of the next bridge. A promise of `sync` waits for the prior consumer itself. Every
scheduled task is run to its end by the executor; the promises that the calls return
may be polled and destroyed in any order. -/
namespace FuchsiaSdk.Barrier
open Bridge BridgeChain Machine

/-- Where a call stands, with the promise it returned. -/
inductive Phase where
  /-- `wrap`: the original promise has not completed. -/
  | working
  /-- It has returned a result, and the handler is invoked. -/
  | finished
  /-- The handler has scheduled the task, which waits for the prior consumer. -/
  | scheduled
  /-- The task has seen the result and drops the completer. -/
  | resolved
  | gone
  /-- The promise was destroyed before the original one had completed: the completer is
  dropped, the prior consumer is not. -/
  | unlinking
  | dropped
  /-- `sync`: `prior_` is swapped, `promise_or` not yet called. -/
  | linking
  | syncing
  /-- The handler has returned `make_ok_promise()` and is reset. -/
  | ready
  /-- That promise is polled. -/
  | passed
  | synced
  /-- The promise was destroyed while it was waiting. -/
  | leaving
  | left
  deriving DecidableEq, Repr

def Phase.standing : Phase → Standing
  | .working => { released := false, holder := .holding }
  | .finished => { released := false, holder := .holding }
  | .scheduled => { released := false, holder := .holding, waits := true }
  | .resolved => { released := false, holder := .returned }
  | .gone => { released := true, holder := .returned }
  | .unlinking => { released := true, holder := .holding }
  | .dropped => { released := true, holder := .canceled }
  | .linking => { released := false, holder := .holding }
  | .syncing => { released := false, holder := .holding, waits := true }
  | .ready => { released := false, holder := .returned }
  | .passed => { released := true, holder := .returned }
  | .synced => { released := true, holder := .returned }
  | .leaving => { released := true, holder := .holding }
  | .left => { released := true, holder := .canceled }

/-- Not a promise that was wrapped and has neither completed nor been abandoned. -/
def Phase.Done (phase : Phase) : Prop :=
  phase ≠ .working

abbrev State : Type := Chain Phase

inductive Label where
  | wrap
  | sync
  /-- A poll of a wrapped promise completes the original one. -/
  | finish (i : Nat)
  | promiseOr (i : Nat)
  /-- The task of a wrapped promise or the promise of a `sync` is polled. -/
  | poll (i : Nat) (task : Task)
  /-- The handler that holds the completer is destroyed. -/
  | release (i : Nat)
  /-- The promise of a `sync` returns its result. -/
  | complete (i : Nat)
  /-- The promise of a call is destroyed, the completer first … -/
  | destroy (i : Nat)
  /-- … and then the prior consumer. -/
  | unlink (i : Nat)
  /-- The barrier is destroyed. -/
  | close
  deriving DecidableEq, Repr

def step (st : State) : Label → Option State
  | .wrap => if st.alive then some (st.swapPrior .working) else none
  | .sync => if st.alive then some (st.swapPrior .linking) else none
  | .finish i =>
    match st.member i with
    | some .working => some (st.moveTo i .finished)
    | _ => none
  | .promiseOr i =>
    match st.member i with
    | some .finished => some (st.promiseOr i .scheduled)
    | some .linking => some (st.promiseOr i .syncing)
    | _ => none
  | .poll i task =>
    match st.member i with
    | some .scheduled => some (st.poll i task .resolved)
    | some .syncing => some (st.poll i task .ready)
    | _ => none
  | .release i =>
    match st.member i with
    | some .resolved => some (st.abandon i .gone)
    | some .ready => some (st.abandon i .passed)
    | _ => none
  | .complete i =>
    match st.member i with
    | some .passed => some (st.moveTo i .synced)
    | _ => none
  | .destroy i =>
    match st.member i with
    | some .working => some (st.abandon i .unlinking)
    | some .syncing => some (st.abandon i .leaving)
    | _ => none
  | .unlink i =>
    match st.member i with
    | some .unlinking => some (st.cancel i .dropped)
    | some .leaving => some (st.cancel i .left)
    | _ => none
  | .close => if st.alive then some st.destroy else none

variable {st next : State} {label : Label}

lemma step_inv (inv : Inv Phase.standing st) (moved : step st label = some next) :
    Inv Phase.standing next := by
  cases label with
  | wrap | sync =>
    obtain ⟨alive, rfl⟩ := of_guard moved
    exact inv.swapPrior alive rfl rfl rfl
  | finish | complete =>
    simp only [step] at moved
    split at moved <;> cases moved
    rename_i found
    exact inv.moveTo found rfl rfl nofun
  | promiseOr i =>
    simp only [step] at moved
    split at moved <;> cases moved <;> rename_i found
    · exact (inv.promiseOr found .scheduled rfl rfl rfl).1
    · exact (inv.promiseOr found .syncing rfl rfl rfl).1
  | poll i task =>
    simp only [step] at moved
    split at moved <;> cases moved <;> rename_i found
    · exact (inv.poll found .resolved rfl task rfl rfl rfl rfl).1
    · exact (inv.poll found .ready rfl task rfl rfl rfl rfl).1
  | release i =>
    simp only [step] at moved
    split at moved <;> cases moved <;> rename_i found
    · exact (inv.abandon .gone found rfl rfl rfl nofun).1
    · exact (inv.abandon .passed found rfl rfl rfl nofun).1
  | destroy i =>
    simp only [step] at moved
    split at moved <;> cases moved <;> rename_i found
    · exact (inv.abandon .unlinking found rfl rfl rfl nofun).1
    · exact (inv.abandon .leaving found rfl rfl rfl nofun).1
  | unlink i =>
    simp only [step] at moved
    split at moved <;> cases moved <;> rename_i found
    · exact (inv.cancel found .dropped rfl rfl rfl rfl).1
    · exact (inv.cancel found .left rfl rfl rfl rfl).1
  | close =>
    obtain ⟨alive, rfl⟩ := of_guard moved
    exact (inv.destroy alive).1

/-! ## When a sync completes -/

/-- A promise of `sync` completes after every promise wrapped before it has completed
or been abandoned. -/
def Synchronized (st : State) : Label → Prop
  | .complete i => ∀ earlier < i, st.At Phase.Done earlier
  | _ => True

/-- When a promise of `sync` completes, everything wrapped before a call whose promise
was destroyed before its time is done. -/
def Mended (st : State) : Label → Prop
  | .complete i => ∀ member < i, st.At (Torn Phase.standing) member →
      ∀ earlier < member, st.At Phase.Done earlier
  | _ => True

lemma done_of_released_phase (phase : Phase) (released : phase.standing.released = true) : phase.Done := by
  rintro rfl
  cases released

lemma synchronized_of_mended (inv : Inv Phase.standing st) (mended : Mended st label)
    (moved : step st label = some next) : Synchronized st label := by
  cases label with
  | complete =>
    simp only [step] at moved
    split at moved <;> cases moved
    rename_i found
    exact inv.done_before done_of_released_phase found rfl mended
  | _ => trivial

/-- Over a run of any length, every promise of `sync` completes after what was wrapped
before it, exactly if at every completion this holds for the calls before one whose
promise was destroyed before its time. Such a promise takes the link to its
predecessors with it. -/
theorem synchronized_iff_mended (labels : List Label) :
    Admissible step Synchronized {} labels ↔ Admissible step Mended {} labels := by
  constructor
  · refine along_mono ?_
    intro _ label _ synchronized
    cases label with
    | complete =>
      intro _ less _ earlier before
      exact synchronized earlier (Nat.lt_trans before less)
    | _ => trivial
  · exact along_of_invariant (fun _ _ _ inv _ stepped => step_inv inv stepped)
      (fun _ _ _ inv mended stepped => synchronized_of_mended inv mended stepped) inv_start

/-- No assertion of a bridge fails. -/
lemma never_fails (ran : run step {} labels = some final) : final.failed = false :=
  (run_keeps (fun _ _ _ inv moved => step_inv inv moved) inv_start ran).failed

/-- Two promises are wrapped and `sync` is called. The second promise is destroyed, and
the sync completes while the first one is still at work. -/
def early : List Label :=
  [.wrap, .wrap, .sync, .promiseOr 2, .destroy 1, .unlink 1, .poll 2 0, .release 2, .complete 2]

theorem early_not_synchronized :
    (run step {} early).isSome = true ∧ ¬ Admissible step Synchronized {} early := by
  refine ⟨rfl, fun along => ?_⟩
  have last := ((((((((along _ rfl).2 _ rfl).2 _ rfl).2 _ rfl).2 _ rfl).2 _ rfl).2 _ rfl).2
    _ rfl).2 _ rfl
  obtain ⟨_, found, done⟩ := last.1 0 (by decide)
  cases found
  exact done rfl

end FuchsiaSdk.Barrier
