import FuchsiaSdk.BridgeChain
import FuchsiaSdk.Machine

/-! `fpromise::sequencer`. Every call of `wrap` is a member of a chain of bridges:
the promise it returns waits for the prior consumer and then invokes a handler that
owns the wrapped promise and the completer of the next bridge. The promises may be
polled and destroyed by any threads in any order; a step is one section under a
lock, or what happens between two of them. -/
namespace FuchsiaSdk.Sequencer
open Bridge BridgeChain Machine

/-- Where a call of `wrap` and the promise it returns stand. -/
inductive Phase where
  /-- `prior_` is swapped, `promise_or` not yet called. -/
  | linking
  /-- The prior promise is not resolved. -/
  | waiting
  /-- A poll has resolved it and is about to invoke the handler. -/
  | ready
  /-- The handler was invoked, the wrapped promise has not completed. -/
  | running
  /-- The wrapped promise has returned a result, the handler is to be destroyed. -/
  | completed
  | gone
  /-- Destroyed before the handler was invoked; the handler is gone, `prior_` is not. -/
  | unlinking
  | dropped
  /-- Destroyed after the handler was invoked. -/
  | stopped
  deriving DecidableEq, Repr

def Phase.standing : Phase → Standing
  | .linking => { released := false, holder := .holding }
  | .waiting => { released := false, holder := .holding, waits := true }
  | .ready => { released := false, holder := .returned }
  | .running => { released := false, holder := .returned }
  | .completed => { released := false, holder := .returned }
  | .gone => { released := true, holder := .returned }
  | .unlinking => { released := true, holder := .holding }
  | .dropped => { released := true, holder := .canceled }
  | .stopped => { released := true, holder := .returned }

/-- The wrapped promise has completed or been abandoned. -/
def Phase.Done : Phase → Prop
  | .completed => True
  | .gone => True
  | .unlinking => True
  | .dropped => True
  | .stopped => True
  | _ => False

abbrev State : Type := Chain Phase

inductive Label where
  | wrap
  | promiseOr (i : Nat)
  | poll (i : Nat) (task : Task)
  /-- The handler polls the wrapped promise, which stays pending or … -/
  | invoke (i : Nat)
  /-- … returns a result. -/
  | complete (i : Nat)
  /-- The handler of a promise that has completed is destroyed. -/
  | release (i : Nat)
  /-- The promise that `wrap` returned is destroyed, the handler first … -/
  | destroy (i : Nat)
  /-- … and then the prior promise. -/
  | unlink (i : Nat)
  /-- The sequencer is destroyed. -/
  | close
  deriving DecidableEq, Repr

def step (st : State) : Label → Option State
  | .wrap => if st.alive then some (st.swapPrior .linking) else none
  | .promiseOr i =>
    match st.member i with
    | some .linking => some (st.promiseOr i .waiting)
    | _ => none
  | .poll i task =>
    match st.member i with
    | some .waiting => some (st.poll i task .ready)
    | _ => none
  | .invoke i =>
    match st.member i with
    | some .ready => some (st.moveTo i .running)
    | some .running => some (st.moveTo i .running)
    | _ => none
  | .complete i =>
    match st.member i with
    | some .running => some (st.moveTo i .completed)
    | _ => none
  | .release i =>
    match st.member i with
    | some .completed => some (st.abandon i .gone)
    | _ => none
  | .destroy i =>
    match st.member i with
    | some .waiting => some (st.abandon i .unlinking)
    | some .running => some (st.abandon i .stopped)
    | _ => none
  | .unlink i =>
    match st.member i with
    | some .unlinking => some (st.cancel i .dropped)
    | _ => none
  | .close => if st.alive then some st.destroy else none

variable {st next : State} {label : Label}

/-! ## What a step does to the members -/

/-- How the member of a call may move: who is done stays done, and whoever is
running was resolved before. -/
structure Advances (label : Label) (i : Nat) (old new : Phase) : Prop where
  done : old.Done → new.Done
  running : new = .running → label = .invoke i ∧ old.standing.holder = .returned

/-- The members after a step. -/
inductive Members (label : Label) (st next : State) : Prop where
  | same (members : next.member = st.member)
  | joined (members : next.member = Function.update st.member st.count (some .linking))
  | moved (i : Nat) (old new : Phase) (found : st.member i = some old)
      (members : next.member = Function.update st.member i (some new))
      (advances : Advances label i old new)

lemma step_spec (inv : Inv Phase.standing st) (moved : step st label = some next) :
    Inv Phase.standing next ∧ Members label st next := by
  cases label with
  | wrap =>
    obtain ⟨alive, rfl⟩ := of_guard moved
    exact ⟨inv.swapPrior alive rfl rfl rfl, .joined rfl⟩
  | promiseOr i =>
    simp only [step] at moved
    split at moved <;> cases moved
    rename_i found
    obtain ⟨kept, members⟩ := inv.promiseOr found .waiting rfl rfl rfl
    exact ⟨kept, .moved i _ _ found members ⟨nofun, nofun⟩⟩
  | poll i task =>
    simp only [step] at moved
    split at moved <;> cases moved
    rename_i found
    obtain ⟨kept, same | members⟩ := inv.poll found .ready rfl task rfl rfl rfl rfl
    · exact ⟨kept, .same same⟩
    · exact ⟨kept, .moved i _ _ found members ⟨nofun, nofun⟩⟩
  | invoke i =>
    simp only [step] at moved
    split at moved <;> cases moved <;> rename_i found
    · exact ⟨inv.moveTo found rfl rfl nofun, .moved i _ _ found rfl ⟨nofun, fun _ => ⟨rfl, rfl⟩⟩⟩
    · exact ⟨inv.moveTo found rfl rfl nofun, .moved i _ _ found rfl ⟨nofun, fun _ => ⟨rfl, rfl⟩⟩⟩
  | complete i =>
    simp only [step] at moved
    split at moved <;> cases moved
    rename_i found
    exact ⟨inv.moveTo found rfl rfl nofun, .moved i _ _ found rfl ⟨nofun, nofun⟩⟩
  | release i =>
    simp only [step] at moved
    split at moved <;> cases moved
    rename_i found
    obtain ⟨kept, members⟩ := inv.abandon .gone found rfl rfl rfl nofun
    exact ⟨kept, .moved i _ _ found members ⟨fun _ => trivial, nofun⟩⟩
  | destroy i =>
    simp only [step] at moved
    split at moved <;> cases moved <;> rename_i found
    · obtain ⟨kept, members⟩ := inv.abandon .unlinking found rfl rfl rfl nofun
      exact ⟨kept, .moved i _ _ found members ⟨nofun, nofun⟩⟩
    · obtain ⟨kept, members⟩ := inv.abandon .stopped found rfl rfl rfl nofun
      exact ⟨kept, .moved i _ _ found members ⟨nofun, nofun⟩⟩
  | unlink i =>
    simp only [step] at moved
    split at moved <;> cases moved
    rename_i found
    obtain ⟨kept, members⟩ := inv.cancel found .dropped rfl rfl rfl rfl
    exact ⟨kept, .moved i _ _ found members ⟨fun _ => trivial, nofun⟩⟩
  | close =>
    obtain ⟨alive, rfl⟩ := of_guard moved
    obtain ⟨kept, members⟩ := inv.destroy alive
    exact ⟨kept, .same members⟩

/-- No step undoes that a promise has completed or been abandoned. -/
lemma done_kept (inv : Inv Phase.standing st) (members : Members label st next)
    (done : st.At Phase.Done i) : next.At Phase.Done i := by
  cases members with
  | same members =>
    obtain ⟨phase, found, holds⟩ := done
    exact ⟨phase, members ▸ found, holds⟩
  | joined members =>
    obtain ⟨phase, found, holds⟩ := done
    have below := inv.lt_count found
    exact ⟨phase, by rw [members, Function.update_of_ne (Nat.ne_of_lt below), found], holds⟩
  | moved _ _ _ found members advances =>
    exact at_of_update members found advances.done done

/-- A promise that is running was so before, or its handler is invoked by this step. -/
lemma running_before (members : Members label st next)
    (running : next.member i = some .running) : st.member i = some .running ∨
      (label = .invoke i ∧ ∃ old, st.member i = some old ∧ old.standing.holder = .returned) := by
  cases members with
  | same members => exact Or.inl (members ▸ running)
  | joined members =>
    rcases member_of_update members running with ⟨_, impossible⟩ | before
    · cases impossible
    · exact Or.inl before
  | moved _ old _ found members advances =>
    rcases member_of_update members running with ⟨rfl, isNew⟩ | before
    · obtain ⟨invoked, returned⟩ := advances.running isNew.symm
      exact Or.inr ⟨invoked, old, found, returned⟩
    · exact Or.inl before

/-! ## The order of the promises -/

/-- A handler is invoked after every earlier promise has completed or been abandoned. -/
def InOrder (st : State) : Label → Prop
  | .invoke i => ∀ earlier < i, st.At Phase.Done earlier
  | _ => True

/-- No two promises are between their first invocation and their end. -/
def Exclusive (st : State) : Prop :=
  ∀ left right, st.member left = some .running → st.member right = some .running → left = right

/-- When a handler is invoked, everything wrapped before a promise that was destroyed
without having been invoked is done. -/
def Mended (st : State) : Label → Prop
  | .invoke i => ∀ member < i, st.At (Torn Phase.standing) member →
      ∀ earlier < member, st.At Phase.Done earlier
  | _ => True

/-- All promises before one that runs are done. -/
def Ordered (st : State) : Prop :=
  ∀ i, st.member i = some .running → ∀ earlier < i, st.At Phase.Done earlier

lemma not_done_of_running (running : st.member i = some .running) : ¬ st.At Phase.Done i := by
  rintro ⟨_, found, done⟩
  rw [running] at found
  cases found
  exact done

lemma Ordered.exclusive (ordered : Ordered st) : Exclusive st := by
  intro left right runsLeft runsRight
  rcases Nat.lt_trichotomy left right with less | equal | greater
  · exact absurd (ordered right runsRight left less) (not_done_of_running runsLeft)
  · exact equal
  · exact absurd (ordered left runsLeft right greater) (not_done_of_running runsRight)

lemma done_of_released_phase (phase : Phase) (released : phase.standing.released = true) : phase.Done := by
  cases phase <;> first | exact trivial | cases released

/-- A mended step that invokes a handler comes in order. -/
lemma inOrder_of_mended (inv : Inv Phase.standing st) (mended : Mended st label)
    (moved : step st label = some next) : InOrder st label := by
  cases label with
  | invoke =>
    simp only [step] at moved
    split at moved <;> cases moved <;> rename_i found
    · exact inv.done_before done_of_released_phase found rfl mended
    · exact inv.done_before done_of_released_phase found rfl mended
  | _ => trivial

lemma ordered_step (inv : Inv Phase.standing st) (ordered : Ordered st)
    (inOrder : InOrder st label) (members : Members label st next) : Ordered next := by
  intro i running earlier less
  refine done_kept inv members ?_
  rcases running_before members running with before | ⟨rfl, _⟩
  · exact ordered i before earlier less
  · exact inOrder earlier less

/-- Over a run of any length, the handlers are invoked in order and no two promises
run at the same time, exactly if every invocation finds what was wrapped before a
promise that was destroyed without having been invoked done. A promise that is
destroyed that early takes with it the only link to its predecessors. -/
theorem sequential_iff_mended (labels : List Label) :
    Along step (fun st label next => InOrder st label ∧ Exclusive next) {} labels ↔
      Admissible step Mended {} labels := by
  constructor
  · refine along_mono ?_
    rintro st label next ⟨inOrder, _⟩
    cases label with
    | invoke =>
      intro _ less _ earlier before
      exact inOrder earlier (Nat.lt_trans before less)
    | _ => trivial
  · refine @along_of_invariant _ _ step (fun st => Inv Phase.standing st ∧ Ordered st)
      Mended _ {} labels ?_ ?_ ⟨inv_start, nofun⟩
    · rintro st label next ⟨inv, ordered⟩ mended stepped
      obtain ⟨kept, members⟩ := step_spec inv stepped
      exact ⟨kept, ordered_step inv ordered (inOrder_of_mended inv mended stepped) members⟩
    · rintro st label next ⟨inv, ordered⟩ mended stepped
      have inOrder := inOrder_of_mended inv mended stepped
      have members := (step_spec inv stepped).2
      exact ⟨inOrder, (ordered_step inv ordered inOrder members).exclusive⟩

/-- No assertion of a bridge fails. -/
lemma never_fails (ran : run step {} labels = some final) : final.failed = false :=
  (run_keeps (fun _ _ _ inv moved => (step_spec inv moved).1) inv_start ran).failed

/-- Three promises are wrapped. The first one runs, the second one is destroyed, and
the third one is polled and runs beside the first. -/
def overtaking : List Label :=
  [.wrap, .promiseOr 0, .wrap, .promiseOr 1, .wrap, .promiseOr 2, .poll 0 0, .invoke 0,
    .destroy 1, .unlink 1, .poll 2 1, .invoke 2]

theorem overtaking_not_sequential :
    (run step {} overtaking).isSome = true ∧
      ¬ Along step (fun st label next => InOrder st label ∧ Exclusive next) {} overtaking := by
  refine ⟨rfl, fun along => ?_⟩
  have last := (((((((((((along _ rfl).2 _ rfl).2 _ rfl).2 _ rfl).2 _ rfl).2 _ rfl).2 _ rfl).2
    _ rfl).2 _ rfl).2 _ rfl).2 _ rfl).2 _ rfl
  obtain ⟨_, found, done⟩ := last.1.1 0 (by decide)
  cases found
  exact done

end FuchsiaSdk.Sequencer
