import Mathlib.Tactic.Common

/-! The state that a completer and a consumer share (`bridge_state` in
`fpromise/bridge_internal.h`). Each function below is one section that holds
`mutex_`, or the drop of a reference; what the source does outside the lock, it
does with the locals that the section returns. `none` stands for an assertion
that fails. -/
namespace FuchsiaSdk.Bridge

/-- `fpromise::result`. -/
inductive Result (V E : Type) where
  | pending
  | ok (v : V)
  | error (error : E)
  deriving DecidableEq, Repr

variable {V E : Type}

def Result.isPending : Result V E → Bool
  | .pending => true
  | .ok _ => false
  | .error _ => false

/-- A `suspended_task`, named by its number. -/
abbrev Task : Type := Nat

/-- `disposition`. -/
inductive Disposition where
  | pending
  | abandoned
  | completed
  | canceled
  | returned
  deriving DecidableEq, Repr

/-- `bridge_state`. -/
structure BridgeState (V E : Type) where
  refCount : Nat := 2
  disposition : Disposition := .pending
  task : Option Task := none
  result : Result V E := .pending
  deriving DecidableEq, Repr

/-- The locals of a completer: `task_to_notify` and `should_resume_task`. -/
structure Notice where
  task : Option Task := none
  resume : Bool := false
  deriving DecidableEq, Repr

/-- What `await_result` found: the task that was suspended before, or the result. -/
inductive Awaited (V E : Type) where
  | pending (taskToDrop : Option Task)
  | returned (result : Result V E)
  deriving DecidableEq, Repr

namespace BridgeState

variable (st : BridgeState V E)

/-- `drop_completion_ref`, of a completer that did not complete. -/
def dropCompletionRef : Option (BridgeState V E × Notice) :=
  match st.disposition with
  | .pending => some ({ st with disposition := .abandoned, task := none },
      { task := st.task, resume := !st.result.isPending })
  | .canceled => some (st, {})
  | _ => none

/-- `complete_or_abandon`, for a result that is not pending. -/
def completeOrAbandon (result : Result V E) : Option (BridgeState V E × Notice) :=
  match st.disposition with
  | .pending => some ({ st with disposition := .completed, task := none, result },
      { task := st.task, resume := !result.isPending })
  | .canceled => some (st, {})
  | _ => none

/-- `drop_consumption_ref`, of a consumer that did not consume, with the task that
it drops. -/
def dropConsumptionRef : Option (BridgeState V E × Option Task) :=
  match st.disposition with
  | .pending =>
    some ({ st with disposition := .canceled, task := none, result := .pending }, st.task)
  | .completed => some (st, none)
  | .abandoned => some (st, none)
  | _ => none

/-- `set_result_if_abandoned`. -/
def setResultIfAbandoned (resultIfAbandoned : Result V E) : Option (BridgeState V E) :=
  if resultIfAbandoned.isPending then some st
  else
    match st.disposition with
    | .pending => some { st with result := resultIfAbandoned }
    | .abandoned => some { st with result := resultIfAbandoned }
    | .completed => some st
    | _ => none

/-- `await_result`, with the task that `suspend_task` gives. A result that is moved
from is pending. -/
def awaitResult (task : Task) : Option (BridgeState V E × Awaited V E) :=
  match st.disposition with
  | .pending => some ({ st with task := some task }, .pending st.task)
  | .completed =>
    some ({ st with disposition := .returned, result := .pending }, .returned st.result)
  | .abandoned =>
    some ({ st with disposition := .returned, result := .pending }, .returned st.result)
  | _ => none

/-- `drop_ref_and_maybe_delete_self`, and whether it deletes. -/
def dropRef : Option (BridgeState V E × Bool) :=
  if st.refCount = 0 then none
  else some ({ st with refCount := st.refCount - 1 }, st.refCount = 1)

end BridgeState

/-! ## What a section does in each disposition -/

section

variable {st : BridgeState V E} {result : Result V E}

lemma eq_pending (pending : result.isPending = true) : result = .pending := by
  cases result with
  | pending => rfl
  | _ => cases pending

lemma dropCompletionRef_pending (pending : st.disposition = .pending) :
    st.dropCompletionRef = some ({ st with disposition := .abandoned, task := none },
      ⟨st.task, !st.result.isPending⟩) := by
  simp [BridgeState.dropCompletionRef, pending]

lemma dropCompletionRef_canceled (canceled : st.disposition = .canceled) :
    st.dropCompletionRef = some (st, {}) := by
  simp [BridgeState.dropCompletionRef, canceled]

lemma completeOrAbandon_pending (pending : st.disposition = .pending) : st.completeOrAbandon result =
      some ({ st with disposition := .completed, task := none, result },
        ⟨st.task, !result.isPending⟩) := by
  simp [BridgeState.completeOrAbandon, pending]

lemma completeOrAbandon_canceled (canceled : st.disposition = .canceled) :
    st.completeOrAbandon result = some (st, {}) := by
  simp [BridgeState.completeOrAbandon, canceled]

lemma dropConsumptionRef_pending (pending : st.disposition = .pending) : st.dropConsumptionRef =
      some ({ st with disposition := .canceled, task := none, result := .pending }, st.task) := by
  simp [BridgeState.dropConsumptionRef, pending]

lemma dropConsumptionRef_settled (settled : st.disposition = .abandoned ∨ st.disposition = .completed) :
    st.dropConsumptionRef = some (st, none) := by
  rcases settled with disposition | disposition <;>
    simp [BridgeState.dropConsumptionRef, disposition]

lemma setResultIfAbandoned_open (opened : st.disposition = .pending ∨ st.disposition = .abandoned)
    (given : result.isPending = false) : st.setResultIfAbandoned result = some { st with result } := by
  rcases opened with disposition | disposition <;>
    simp [BridgeState.setResultIfAbandoned, disposition, given]

lemma setResultIfAbandoned_pending : st.setResultIfAbandoned .pending = some st := by
  simp [BridgeState.setResultIfAbandoned, Result.isPending]

lemma setResultIfAbandoned_completed (completed : st.disposition = .completed) :
    st.setResultIfAbandoned result = some st := by
  simp [BridgeState.setResultIfAbandoned, completed]

lemma awaitResult_pending (pending : st.disposition = .pending) (task : Task) :
    st.awaitResult task = some ({ st with task := some task }, .pending st.task) := by
  simp [BridgeState.awaitResult, pending]

lemma awaitResult_settled
    (settled : st.disposition = .abandoned ∨ st.disposition = .completed) (task : Task) :
    st.awaitResult task = some ({ st with disposition := .returned, result := .pending },
      .returned st.result) := by
  rcases settled with disposition | disposition <;> simp [BridgeState.awaitResult, disposition]

end

end FuchsiaSdk.Bridge
