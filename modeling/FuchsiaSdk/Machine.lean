import Mathlib.Data.List.Count
import Mathlib.Tactic.Common
import Mathlib.Algebra.Ring.Nat

/-! Runs of a machine whose steps are the critical sections of a program: a
partial step function on an explicit state, one label per critical section and
per outcome of the environment. A sequence of labels is one interleaving; the
rules below carry a property of single steps to every state of every run. -/
namespace FuchsiaSdk.Machine
open List hiding after

variable {State Label : Type*} {step : State → Label → Option State}
  {inv : State → Prop} {allowed : State → Label → Prop}
  {relation : State → Label → State → Prop} {st final : State} {labels : List Label}

/-- The state a sequence of steps ends in, or `none` as soon as one of them is
not enabled. -/
def run (step : State → Label → Option State) : State → List Label → Option State
  | st, [] => some st
  | st, label :: rest => (step st label).bind fun next => run step next rest

/-- Every step taken along the sequence relates the state before it to the
state after it. Nothing is asked of what follows a step that is not enabled. -/
def Along (step : State → Label → Option State) (relation : State → Label → State → Prop) :
    State → List Label → Prop
  | _, [] => True
  | st, label :: rest =>
    ∀ next, step st label = some next → relation st label next ∧ Along step relation next rest

/-- Every step of the sequence is taken from a state that allows it. -/
def Admissible (step : State → Label → Option State) (allowed : State → Label → Prop) :
    State → List Label → Prop :=
  Along step fun st label _ => allowed st label

instance Along.decidable [∀ st label next, Decidable (relation st label next)] :
    ∀ st labels, Decidable (Along step relation st labels)
  | _, [] => isTrue trivial
  | st, label :: rest =>
    match stepped : step st label with
    | none => isTrue (by simp [Along, stepped])
    | some next =>
      have := Along.decidable next rest
      decidable_of_iff (relation st label next ∧ Along step relation next rest)
        (by simp [Along, stepped])

instance Admissible.decidable [∀ st label, Decidable (allowed st label)]
    (st : State) (labels : List Label) : Decidable (Admissible step allowed st labels) :=
  Along.decidable st labels

/-- A step behind a guard is taken only if the guard holds. -/
lemma of_guard {guard : Prop} [Decidable guard]
    (moved : (if guard then some later else none) = some after) : guard ∧ later = after := by
  simpa only [Option.ite_none_right_eq_some, Option.some.injEq] using moved

/-- What every allowed step preserves holds at the end of every run. -/
lemma run_invariant (keeps : ∀ st label next, inv st → allowed st label →
      step st label = some next → inv next)
    (holds : inv st) (admitted : Admissible step allowed st labels)
    (ran : run step st labels = some final) : inv final := by
  induction labels generalizing st with
  | nil =>
    cases ran
    exact holds
  | cons label _ ih =>
    obtain ⟨next, moved, ran⟩ := Option.bind_eq_some_iff.mp ran
    obtain ⟨allowedHere, admitted⟩ := admitted next moved
    exact ih (keeps _ _ _ holds allowedHere moved) admitted ran

/-- What every step preserves holds at the end of every run. -/
lemma run_keeps (keeps : ∀ st label next, inv st → step st label = some next → inv next)
    (holds : inv st) (ran : run step st labels = some final) : inv final := by
  induction labels generalizing st with
  | nil =>
    cases ran
    exact holds
  | cons label _ ih =>
    obtain ⟨next, moved, ran⟩ := Option.bind_eq_some_iff.mp ran
    exact ih (keeps _ _ _ holds moved) ran

/-- An invariant of the allowed steps may be used to judge each of them. -/
lemma along_of_invariant (keeps : ∀ st label next, inv st → allowed st label →
      step st label = some next → inv next) (judged : ∀ st label next, inv st → allowed st label →
      step st label = some next → relation st label next)
    (holds : inv st) (admitted : Admissible step allowed st labels) :
    Along step relation st labels := by
  induction labels generalizing st with
  | nil => exact trivial
  | cons label _ ih =>
    intro next moved
    obtain ⟨allowedHere, admitted⟩ := admitted next moved
    exact ⟨judged _ _ _ holds allowedHere moved, ih (keeps _ _ _ holds allowedHere moved) admitted⟩

/-- An invariant of all steps may be used to judge each of them. -/
lemma along_keeps (keeps : ∀ st label next, inv st → step st label = some next → inv next)
    (judged : ∀ st label next, inv st → step st label = some next →
      relation st label next) (holds : inv st) : Along step relation st labels := by
  induction labels generalizing st with
  | nil => exact trivial
  | cons label _ ih =>
    intro next moved
    exact ⟨judged _ _ _ holds moved, ih (keeps _ _ _ holds moved)⟩

/-- What a step keeps exactly if it is allowed holds at the end of a run exactly if it held
at the start and every step was allowed. -/
lemma run_iff_admissible {good : State → Prop}
    (keeps : ∀ st label next, inv st → step st label = some next → inv next)
    (exactly : ∀ st label next, inv st → step st label = some next →
      (good next ↔ good st ∧ allowed st label))
    (holds : inv st) (ran : run step st labels = some final) :
    good final ↔ good st ∧ Admissible step allowed st labels := by
  induction labels generalizing st with
  | nil =>
    cases ran
    exact (and_iff_left trivial).symm
  | cons label _ ih =>
    obtain ⟨next, moved, ran⟩ := Option.bind_eq_some_iff.mp ran
    rw [ih (keeps st label next holds moved) ran, exactly st label next holds moved, and_assoc]
    refine and_congr_right fun _ =>
      ⟨fun ⟨allowed, admitted⟩ next' stepped' => ?_, fun admitted => admitted next moved⟩
    cases moved.symm.trans stepped'
    exact ⟨allowed, admitted⟩

/-- A judgement that singles out the allowed steps holds along a run exactly if every step of
it is allowed, where the invariant that relates the two needs only the allowed steps. -/
lemma along_iff_admissible (keeps : ∀ st label next, inv st → allowed st label →
      step st label = some next → inv next)
    (exactly : ∀ st label next, inv st → step st label = some next →
      (relation st label next ↔ allowed st label))
    (holds : inv st) : Along step relation st labels ↔ Admissible step allowed st labels := by
  induction labels generalizing st with
  | nil => exact Iff.rfl
  | cons label _ ih =>
    refine forall_congr' fun next => imp_congr_right fun moved => ?_
    rw [exactly st label next holds moved]
    exact and_congr_right fun allowed => ih (keeps st label next holds allowed moved)

/-- A judgement of every step may be weakened. -/
lemma along_mono (weaker : ∀ st label next, relation st label next → other st label next)
    (all : Along step relation st labels) : Along step other st labels := by
  induction labels generalizing st with
  | nil => exact trivial
  | cons label _ ih =>
    intro next moved
    obtain ⟨here, after⟩ := all next moved
    exact ⟨weaker _ _ _ here, ih after⟩

lemma along_and (first : Along step relation st labels) (second : Along step other st labels) :
    Along step (fun st label next => relation st label next ∧ other st label next) st labels := by
  induction labels generalizing st with
  | nil => exact trivial
  | cons label _ ih =>
    intro next moved
    obtain ⟨here, after⟩ := first next moved
    obtain ⟨here', after'⟩ := second next moved
    exact ⟨⟨here, here'⟩, ih after after'⟩

/-- Two judgements that agree on every step agree on every run. -/
lemma along_congr (same : ∀ st label next, step st label = some next →
      (relation st label next ↔ other st label next)) :
    Along step relation st labels ↔ Along step other st labels := by
  induction labels generalizing st with
  | nil => exact Iff.rfl
  | cons label _ ih =>
    refine forall_congr' fun next => imp_congr_right fun moved => ?_
    exact and_congr (same _ _ _ moved) ih

/-- A judgement of every step holds in particular of one reached by a prefix. -/
lemma along_at (all : Along step relation st (labels ++ label :: rest))
    (ran : run step st labels = some before) (moved : step before label = some after) :
    relation before label after := by
  induction labels generalizing st with
  | nil =>
    cases ran
    exact (all after moved).1
  | cons _ _ ih =>
    obtain ⟨next, first, ran⟩ := Option.bind_eq_some_iff.mp ran
    exact ih (all next first).2 ran

/-- The number of failed assertions after one more assertion. -/
def assert (failed : Nat) (holds : Bool) : Nat := if holds then failed else failed + 1

@[simp] lemma assert_true : assert failed true = failed := rfl

/-! ## Parties

A machine may hold a list of parties with a local state each: party `i` is
read with `parties[i]?` and moves with `List.set`. -/

/-- A count over the parties moves by what the one that changed contributes
before and after. -/
lemma countP_set_add {Party : Type*} {parties : List Party} {old : Party}
    (found : parties[i]? = some old) (new : Party) (p : Party → Bool) :
    (parties.set i new).countP p + (if p old then 1 else 0) =
      parties.countP p + (if p new then 1 else 0) := by
  obtain ⟨inside, rfl⟩ := List.getElem?_eq_some_iff.mp found
  rw [countP_set inside]
  have counted : (if p parties[i] then 1 else 0) ≤ parties.countP p := by
    split
    · exact countP_pos_iff.mpr ⟨_, getElem_mem inside, by assumption⟩
    · exact Nat.zero_le _
  omega

/-- The move of one party leaves a different one where it is. -/
lemma mem_set_of_ne {Party : Type*} {parties : List Party} {old party : Party}
    (found : parties[i]? = some old) (new : Party) (apart : party ≠ old)
    (mem : party ∈ parties) : party ∈ parties.set i new := by
  obtain ⟨pos, inside, rfl⟩ := mem_iff_getElem.mp mem
  obtain ⟨_, rfl⟩ := List.getElem?_eq_some_iff.mp found
  refine mem_iff_getElem.mpr ⟨pos, by simpa using inside, ?_⟩
  rw [getElem_set_ne]
  rintro rfl
  exact apart rfl

/-- Two kinds of party that exclude each other and are both of a third kind. -/
lemma countP_add_le {Party : Type*} {parties : List Party} {p q r : Party → Bool}
    (disjoint : ∀ party ∈ parties, p party = true → q party = false)
    (left : ∀ party ∈ parties, p party = true → r party = true)
    (right : ∀ party ∈ parties, q party = true → r party = true) :
    parties.countP p + parties.countP q ≤ parties.countP r := by
  induction parties with
  | nil => simp
  | cons party _ ih =>
    have below := ih (fun other mem => disjoint other (mem_cons_of_mem _ mem))
      (fun other mem => left other (mem_cons_of_mem _ mem))
      (fun other mem => right other (mem_cons_of_mem _ mem))
    have excluded := disjoint party mem_cons_self
    have isLeft := left party mem_cons_self
    have isRight := right party mem_cons_self
    simp only [countP_cons]
    split <;> split <;> simp_all <;> omega

end FuchsiaSdk.Machine
