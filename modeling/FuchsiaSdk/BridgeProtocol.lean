import FuchsiaSdk.Bridge
import FuchsiaSdk.Machine

/-! One completer and one consumer of a bridge. Between its section under the lock
and the drop of its reference each of them still has something to do: the completer
resumes the task that waits or lets go of it, the consumer lets go of the task it
replaced. What the consumer receives and what becomes of the tasks is compared with
the calls that were made. -/
namespace FuchsiaSdk.BridgeProtocol
open Bridge Machine List Option

variable {V E : Type}

/-- Where the completer stands. -/
inductive Completer where
  | holding
  /-- The section is over, the task is to be notified. -/
  | notifying (notice : Notice)
  /-- The reference is to be dropped; a task that was not resumed is still held. -/
  | dropping (task : Option Task)
  | leaving (task : Option Task)
  | done
  deriving DecidableEq, Repr

/-- Where the consumer stands. -/
inductive Consumer (V E : Type) where
  | holding
  /-- It has become a promise. -/
  | polling
  /-- A poll has suspended a task and drops the one before. -/
  | replacing (task : Option Task)
  | consuming (result : Result V E)
  /-- The section of a cancellation is over. -/
  | dropping (task : Option Task)
  | leaving (task : Option Task)
  | done
  deriving DecidableEq, Repr

/-- What the two have done so far, in the order of their sections. -/
inductive History (V E : Type) where
  | waiting
  /-- The completer has completed with a result, or abandoned with a pending one. -/
  | settled (result : Result V E)
  /-- After that the consumer has polled. -/
  | returned (result : Result V E)
  /-- After that the consumer has canceled. -/
  | left (result : Result V E)
  /-- The consumer has canceled first. -/
  | canceled
  /-- The completer has come after the cancellation. -/
  | late
  deriving DecidableEq, Repr

namespace History

def settle (result : Result V E) : History V E → History V E
  | .waiting => .settled result
  | .canceled => .late
  | history => history

def poll : History V E → History V E
  | .settled result => .returned result
  | history => history

def cancel : History V E → History V E
  | .waiting => .canceled
  | .settled result => .left result
  | history => history

end History

structure State (V E : Type) where
  bridge : BridgeState V E := {}
  completer : Completer := .holding
  consumer : Consumer V E := .holding
  /-- An assertion has failed. -/
  failed : Bool := false
  /-- How often the bridge was deleted. -/
  deletions : Nat := 0
  /-- How many tasks were suspended; they are numbered from 0. -/
  suspended : Nat := 0
  resumed : List Task := []
  /-- The tasks that were released without being resumed. -/
  released : List Task := []
  /-- What polls have returned that found the bridge no longer pending. -/
  received : List (Result V E) := []
  /-- The result if abandoned. -/
  fallback : Result V E := .pending
  history : History V E := .waiting
  deriving DecidableEq, Repr

inductive Label (V E : Type) where
  | complete (result : Result V E)
  | abandon
  | completerStep
  | promise
  | promiseOr (resultIfAbandoned : Result V E)
  | poll
  | cancel
  | consumerStep
  deriving DecidableEq, Repr

namespace State

variable (st : State V E)

def fail : State V E := { st with failed := true }

/-- The completer after its section. -/
def settle (outcome : Option (BridgeState V E × Notice)) (result : Result V E) : State V E :=
  match outcome with
  | none => st.fail
  | some (bridge, notice) =>
    { st with bridge, completer := .notifying notice, history := st.history.settle result }

/-- A reference is dropped, and the rest of the call follows. -/
def drop (rest : State V E → State V E) : State V E :=
  match st.bridge.dropRef with
  | none => st.fail
  | some (bridge, deletes) =>
    rest { st with bridge, deletions := st.deletions + deletes.toNat }

/-- What the completer does after its section. -/
def completerStep : Option (State V E) :=
  match st.completer with
  | .notifying notice =>
    if notice.resume then
      some { st with completer := .dropping none, resumed := st.resumed ++ notice.task.toList }
    else some { st with completer := .dropping notice.task }
  | .dropping task => some (st.drop fun st => { st with completer := .leaving task })
  | .leaving task =>
    some { st with completer := .done, released := st.released ++ task.toList }
  | _ => none

def consumerStep : Option (State V E) :=
  match st.consumer with
  | .replacing task =>
    some { st with consumer := .polling, released := st.released ++ task.toList }
  | .consuming result =>
    some (st.drop fun st =>
      { st with consumer := .done, received := st.received ++ [result] })
  | .dropping task => some (st.drop fun st => { st with consumer := .leaving task })
  | .leaving task =>
    some { st with consumer := .done, released := st.released ++ task.toList }
  | _ => none

def promiseOr (resultIfAbandoned : Result V E) : State V E :=
  match st.bridge.setResultIfAbandoned resultIfAbandoned with
  | none => st.fail
  | some bridge => { st with bridge, consumer := .polling, fallback := resultIfAbandoned }

def poll : State V E :=
  match st.bridge.awaitResult st.suspended with
  | none => st.fail
  | some (bridge, .pending taskToDrop) =>
    { st with
      bridge
      consumer := .replacing taskToDrop
      suspended := st.suspended + 1
      history := st.history.poll }
  | some (bridge, .returned result) =>
    { st with bridge, consumer := .consuming result, history := st.history.poll }

def cancel : State V E :=
  match st.bridge.dropConsumptionRef with
  | none => st.fail
  | some (bridge, taskToDrop) =>
    { st with bridge, consumer := .dropping taskToDrop, history := st.history.cancel }

end State

/-- One section of one of the two, or what it does after that. -/
def step (st : State V E) : Label V E → Option (State V E)
  | .complete result =>
    if st.completer = .holding ∧ result.isPending = false then
      some (st.settle (st.bridge.completeOrAbandon result) result)
    else none
  | .abandon =>
    if st.completer = .holding then
      some (st.settle st.bridge.dropCompletionRef .pending)
    else none
  | .completerStep => st.completerStep
  | .promise =>
    match st.consumer with
    | .holding => some { st with consumer := .polling }
    | _ => none
  | .promiseOr resultIfAbandoned =>
    match st.consumer with
    | .holding => some (st.promiseOr resultIfAbandoned)
    | _ => none
  | .poll =>
    match st.consumer with
    | .polling => some st.poll
    | _ => none
  | .cancel =>
    match st.consumer with
    | .holding => some st.cancel
    | .polling => some st.cancel
    | _ => none
  | .consumerStep => st.consumerStep

/-! ## What holds between the steps -/

def Completer.refs : Completer → Nat
  | .holding => 1
  | .notifying _ => 1
  | .dropping _ => 1
  | .leaving _ => 0
  | .done => 0

def Consumer.refs : Consumer V E → Nat
  | .holding => 1
  | .polling => 1
  | .replacing _ => 1
  | .consuming _ => 1
  | .dropping _ => 1
  | .leaving _ => 0
  | .done => 0

/-- The task that is still held by a completer. -/
def Completer.task : Completer → Option Task
  | .holding => none
  | .notifying notice => notice.task
  | .dropping task => task
  | .leaving task => task
  | .done => none

def Consumer.task : Consumer V E → Option Task
  | .holding => none
  | .polling => none
  | .replacing task => task
  | .consuming _ => none
  | .dropping task => task
  | .leaving task => task
  | .done => none

/-- A consumer that has not let go of the bridge. -/
def Consumer.Waits : Consumer V E → Prop
  | .holding => True
  | .polling => True
  | .replacing _ => True
  | _ => False

/-- A consumer that cancels, or has done so. -/
def Consumer.LetsGo : Consumer V E → Prop
  | .dropping _ => True
  | .leaving _ => True
  | .done => True
  | _ => False

namespace History

/-- The completer has not come to its section. -/
def Open : History V E → Prop
  | .waiting => True
  | .canceled => True
  | _ => False

def disposition : History V E → Disposition
  | .waiting => .pending
  | .settled result => if result.isPending then .abandoned else .completed
  | .returned _ => .returned
  | .left result => if result.isPending then .abandoned else .completed
  | .canceled => .canceled
  | .late => .canceled

/-- What the consumer is to receive: the result of a completion, or the fallback
after an abandonment. -/
def outcome (fallback : Result V E) : History V E → Result V E
  | .settled result => if result.isPending then fallback else result
  | .returned result => if result.isPending then fallback else result
  | .left result => if result.isPending then fallback else result
  | _ => .pending

/-- Where the consumer can be. -/
def Allows (fallback : Result V E) : History V E → Consumer V E → Prop
  | .waiting, consumer => consumer.Waits
  | .settled _, consumer => consumer.Waits
  | .returned result, consumer =>
    consumer = .consuming (outcome fallback (.returned result)) ∨ consumer = .done
  | .left _, consumer => consumer.LetsGo
  | .canceled, consumer => consumer.LetsGo
  | .late, consumer => consumer.LetsGo

/-- What the consumer has received. -/
def received (fallback : Result V E) : History V E → Consumer V E → List (Result V E)
  | .returned result, .done => [outcome fallback (.returned result)]
  | _, _ => []

/-- The task that the bridge holds: the last of those that were suspended. -/
def task : History V E → (suspended : Nat) → Option Task
  | .waiting, suspended + 1 => some suspended
  | _, _ => none

end History

/-- In how many places a task is. -/
def State.places (st : State V E) (task : Task) : Nat :=
  st.bridge.task.toList.count task + st.completer.task.toList.count task +
    st.consumer.task.toList.count task + st.resumed.count task + st.released.count task

structure Inv (st : State V E) : Prop where
  failed : st.failed = false
  refs : st.bridge.refCount = st.completer.refs + st.consumer.refs
  deletions : st.deletions = if st.bridge.refCount = 0 then 1 else 0
  completer : st.completer = .holding ↔ st.history.Open
  consumer : st.history.Allows st.fallback st.consumer
  disposition : st.bridge.disposition = st.history.disposition
  fallback : st.history = .waiting → st.bridge.result = st.fallback
  result : ∀ result, st.history = .settled result →
    st.bridge.result = st.history.outcome st.fallback
  received : st.received = st.history.received st.fallback st.consumer
  fresh : st.consumer = .holding → st.suspended = 0 ∧ st.fallback = .pending
  task : st.bridge.task = st.history.task st.suspended
  places : ∀ task, st.places task = if task < st.suspended then 1 else 0
  /-- A task that waits for what there is to receive is resumed, … -/
  resumes : (st.history.outcome st.fallback).isPending = false → 0 < st.suspended →
    st.completer = .notifying ⟨some (st.suspended - 1), true⟩ ∨ st.suspended - 1 ∈ st.resumed
  /-- … and no other. -/
  wanted : ∀ task, st.completer = .notifying ⟨some task, true⟩ ∨ task ∈ st.resumed →
    (st.history.outcome st.fallback).isPending = false

lemma inv_start : Inv ({} : State V E) where
  failed := rfl
  refs := rfl
  deletions := rfl
  completer := ⟨fun _ => trivial, fun _ => rfl⟩
  consumer := trivial
  disposition := rfl
  fallback _ := rfl
  result := nofun
  received := rfl
  fresh _ := ⟨rfl, rfl⟩
  task := rfl
  places _ := rfl
  resumes := nofun
  wanted _ found := by rcases found with found | found <;> cases found

section

variable {st next : State V E} {notice : Notice} {held : Option Task} {result : Result V E}

/-! ## The completer -/

section

variable (inv : Inv st)
include inv

lemma Inv.closed (gone : st.completer ≠ .holding) : ¬st.history.Open :=
  fun isOpen => gone (inv.completer.mpr isOpen)

/-- The completer goes on after its section: it does not come back to it, and if it
has not resumed a task it is not about to. -/
lemma Inv.notify (phase : st.completer = .notifying notice)
    (moved : st.completerStep = some next) : Inv next := by
  obtain ⟨task, resume⟩ := notice
  have refs := inv.refs
  have resumes := inv.resumes
  have wanted := inv.wanted
  unfold State.completerStep at moved
  rw [phase] at moved refs resumes wanted
  have closed := inv.closed (by rw [phase]; nofun)
  cases resume with
  | true =>
    cases moved
    refine { inv with
      refs, completer := iff_of_false nofun closed, places := fun other => ?_,
      resumes := fun some waits => .inr ?_, wanted := fun other found => ?_ }
    · rw [← inv.places other]
      simp only [State.places, phase, Completer.task, toList_none, count_nil, count_append]
      omega
    · rcases resumes some waits with here | there
      · cases here
        exact mem_append_right _ mem_cons_self
      · exact mem_append_left _ there
    · rcases found with here | there
      · cases here
      refine wanted other ?_
      rcases mem_append.mp there with old | new
      · exact .inr old
      · have same : task = some other := mem_toList.mp new
        exact .inl (by rw [same])
  | false =>
    cases moved
    refine { inv with
      refs, completer := iff_of_false nofun closed, places := fun other => ?_,
      resumes := fun some waits => .inr ?_, wanted := fun other found => ?_ }
    · rw [← inv.places other]
      simp only [State.places, phase, Completer.task]
    · exact (resumes some waits).resolve_left nofun
    · exact wanted other (.inr (found.resolve_left nofun))

lemma Inv.drop_eq (holds : 0 < st.completer.refs + st.consumer.refs)
    (rest : State V E → State V E) : st.drop rest = rest { st with
      bridge := { st.bridge with refCount := st.bridge.refCount - 1 }
      deletions := if st.bridge.refCount - 1 = 0 then 1 else 0 } := by
  have refs := inv.refs
  have deletions := inv.deletions
  rw [if_neg (by omega)] at deletions
  unfold State.drop BridgeState.dropRef
  rw [if_neg (by omega), deletions]
  by_cases last : st.bridge.refCount = 1
  · simp [last]
  · simp [last, show st.bridge.refCount - 1 ≠ 0 by omega]

lemma Inv.completer_drop (phase : st.completer = .dropping held)
    (moved : st.completerStep = some next) : Inv next := by
  have refs := inv.refs
  have resumes := inv.resumes
  have wanted := inv.wanted
  have one : st.completer.refs = 1 := by rw [phase]; rfl
  unfold State.completerStep at moved
  rw [phase] at moved resumes wanted
  have closed := inv.closed (by rw [phase]; nofun)
  simp only [inv.drop_eq (show 0 < st.completer.refs + st.consumer.refs by omega)] at moved
  cases moved
  refine { inv with
    refs := ?_, deletions := rfl, completer := iff_of_false nofun closed, places := fun other => ?_,
    resumes := fun some waits => .inr ?_, wanted := fun other found => ?_ }
  · simp only [Completer.refs]
    omega
  · rw [← inv.places other]
    simp only [State.places, phase, Completer.task]
  · exact (resumes some waits).resolve_left nofun
  · exact wanted other (.inr (found.resolve_left nofun))

lemma Inv.completer_leave (phase : st.completer = .leaving held)
    (moved : st.completerStep = some next) : Inv next := by
  have refs := inv.refs
  have resumes := inv.resumes
  have wanted := inv.wanted
  unfold State.completerStep at moved
  rw [phase] at moved refs resumes wanted
  have closed := inv.closed (by rw [phase]; nofun)
  cases moved
  refine { inv with
    refs, completer := iff_of_false nofun closed, places := fun other => ?_,
    resumes := fun some waits => .inr ?_, wanted := fun other found => ?_ }
  · rw [← inv.places other]
    simp only [State.places, phase, Completer.task, toList_none, count_nil, count_append]
    omega
  · exact (resumes some waits).resolve_left nofun
  · exact wanted other (.inr (found.resolve_left nofun))

lemma Inv.completerStep (moved : st.completerStep = some next) : Inv next := by
  cases phase : st.completer with
  | notifying => exact inv.notify phase moved
  | dropping held => exact inv.completer_drop phase moved
  | leaving held => exact inv.completer_leave phase moved
  | _ =>
    unfold State.completerStep at moved
    rw [phase] at moved
    cases moved

/-- The completer comes first: what waits is taken along, to be resumed if there is
something to receive. -/
lemma Inv.settle_waiting (waiting : st.history = .waiting) (result : Result V E) :
    Inv (st.settle (some ({ st.bridge with
      disposition := (History.settled result).disposition
      task := none
      result := (History.settled result).outcome st.fallback },
      ⟨st.bridge.task, !((History.settled result).outcome st.fallback).isPending⟩)) result) := by
  obtain ⟨bridge, completer, consumer, _, _, suspended, resumed, _, received,
    fallback, history⟩ := st
  cases waiting
  have holding : completer = .holding := inv.completer.mpr trivial
  subst holding
  have task : bridge.task = History.waiting.task suspended := inv.task
  have places := inv.places
  have none : resumed = [] := by
    refine eq_nil_iff_forall_not_mem.mpr fun task found => ?_
    cases inv.wanted task (.inr found)
  have consumer : consumer.Waits := inv.consumer
  refine { inv with
    completer := iff_of_false nofun id, consumer, disposition := rfl, fallback := nofun,
    result := fun _ _ => rfl, received := ?_, task := rfl, places := fun other => ?_,
    resumes := fun some waits => .inl ?_, wanted := fun other found => ?_ }
  · exact inv.received
  · refine Eq.trans ?_ (places other)
    simp only [State.places, State.settle, Completer.task, toList_none, count_nil]
    omega
  · obtain ⟨last, rfl⟩ : ∃ last, suspended = last + 1 :=
      ⟨suspended - 1, (Nat.succ_pred_eq_of_pos waits).symm⟩
    have some : (!((History.settled result).outcome fallback).isPending) = true := by
      rw [Bool.not_eq_true']
      exact some
    rw [task, some]
    rfl
  · rcases found with here | there
    · have resume := congrArg (fun phase => match phase with
        | Completer.notifying notice => notice.resume
        | _ => false) here
      simpa [State.settle, History.settle] using resume
    · subst none
      cases there

/-- The completer comes after a cancellation. -/
lemma Inv.settle_canceled (canceled : st.history = .canceled)
    (result : Result V E) : Inv (st.settle (some (st.bridge, {})) result) := by
  obtain ⟨bridge, completer, _, _, _, _, _, _, received, fallback, history⟩ := st
  cases canceled
  have holding : completer = .holding := inv.completer.mpr trivial
  subst holding
  exact { inv with
    completer := iff_of_false nofun id, disposition := inv.disposition, fallback := nofun,
    result := nofun, received := inv.received, resumes := nofun,
    wanted := fun task found => inv.wanted task (.inr (found.resolve_left nofun)) }

/-- The completer has not settled only while nothing was settled. -/
lemma Inv.open_cases (holding : st.completer = .holding) :
    st.history = .waiting ∨ st.history = .canceled := by
  have isOpen := inv.completer.mp holding
  cases history : st.history with
  | waiting => exact .inl rfl
  | canceled => exact .inr rfl
  | _ =>
    rw [history] at isOpen
    cases isOpen

lemma Inv.complete (holding : st.completer = .holding) (given : result.isPending = false) :
    Inv (st.settle (st.bridge.completeOrAbandon result) result) := by
  have disposition := inv.disposition
  rcases inv.open_cases holding with waiting | canceled
  · have settled := inv.settle_waiting waiting result
    rw [waiting] at disposition
    simp only [History.disposition, History.outcome, given, Bool.false_eq_true, if_false] at settled
    rw [completeOrAbandon_pending disposition, given]
    exact settled
  · rw [canceled] at disposition
    rw [completeOrAbandon_canceled disposition]
    exact inv.settle_canceled canceled result

lemma Inv.abandon (holding : st.completer = .holding) :
    Inv (st.settle st.bridge.dropCompletionRef .pending) := by
  have disposition := inv.disposition
  rcases inv.open_cases holding with waiting | canceled
  · have settled := inv.settle_waiting waiting .pending
    rw [waiting] at disposition
    simp only [History.disposition, History.outcome, Result.isPending, if_true,
      ← inv.fallback waiting] at settled
    rw [dropCompletionRef_pending disposition]
    exact settled
  · rw [canceled] at disposition
    rw [dropCompletionRef_canceled disposition]
    exact inv.settle_canceled canceled .pending

end

/-! ## The consumer -/

/-- While the consumer waits, it has not been answered. -/
lemma Inv.waits_cases (inv : Inv st) (waits : st.consumer = .holding ∨ st.consumer = .polling) :
    st.history = .waiting ∨ ∃ result, st.history = .settled result := by
  have allowed := inv.consumer
  cases history : st.history with
  | waiting => exact .inl rfl
  | settled result => exact .inr ⟨result, rfl⟩
  | _ =>
    rw [history] at allowed
    rcases waits with phase | phase <;> rw [phase] at allowed <;>
      simp [History.Allows, Consumer.LetsGo] at allowed

lemma Inv.received_nil (inv : Inv st) (busy : st.consumer ≠ .done) : st.received = [] := by
  rw [inv.received]
  unfold History.received
  split
  next phase => exact absurd phase busy
  · rfl

lemma Inv.promise (inv : Inv st) (phase : st.consumer = .holding) :
    Inv { st with consumer := .polling } := by
  have refs := inv.refs
  have none := inv.received_nil (by rw [phase]; nofun)
  rw [phase] at refs
  refine { inv with
    refs, consumer := ?_, received := ?_, fresh := nofun, places := fun other => ?_ }
  · rcases inv.waits_cases (.inl phase) with waiting | ⟨_, settled⟩
    · rw [waiting]
      exact trivial
    · rw [settled]
      exact trivial
  · unfold History.received
    split <;> simp_all
  · rw [← inv.places other]
    simp only [State.places, phase, Consumer.task]

/-- Before the first poll no task is anywhere. -/
lemma Inv.no_task (inv : Inv st) (none : st.suspended = 0) (task : Task) :
    task ∉ st.resumed ∧ st.completer ≠ .notifying ⟨some task, true⟩ := by
  have nowhere := inv.places task
  rw [none, if_neg (Nat.not_lt_zero _)] at nowhere
  unfold State.places at nowhere
  refine ⟨fun found => ?_, fun notifying => ?_⟩
  · have counted := count_pos_iff.mpr found
    omega
  · rw [notifying] at nowhere
    simp [Completer.task] at nowhere

lemma settled_disposition (result : Result V E) : (History.settled result).disposition = .abandoned ∨
      (History.settled result).disposition = .completed := by
  cases result with
  | pending => exact .inl rfl
  | _ => exact .inr rfl

section

variable (inv : Inv st)
include inv

/-- What the bridge holds once the fallback is given. -/
lemma Inv.setResultIfAbandoned_eq (phase : st.consumer = .holding) (resultIfAbandoned : Result V E) :
    ∃ v, st.bridge.setResultIfAbandoned resultIfAbandoned = some { st.bridge with result := v } ∧
      (st.history = .waiting → v = resultIfAbandoned) ∧
      ∀ result, st.history = .settled result →
        v = (History.settled result).outcome resultIfAbandoned := by
  have disposition := inv.disposition
  obtain ⟨_, empty⟩ := inv.fresh phase
  rcases inv.waits_cases (.inl phase) with waiting | ⟨result, settled⟩
  · rw [waiting] at disposition ⊢
    refine ⟨resultIfAbandoned, ?_, fun _ => rfl, nofun⟩
    cases given : resultIfAbandoned.isPending with
    | true =>
      cases eq_pending given
      rw [setResultIfAbandoned_pending, ← empty, ← inv.fallback waiting]
    | false => rw [setResultIfAbandoned_open (.inl disposition) given]
  · have held := inv.result result settled
    rw [settled] at disposition held ⊢
    refine ⟨(History.settled result).outcome resultIfAbandoned, ?_, nofun, fun other same => ?_⟩
    · cases completed : result.isPending with
      | false =>
        -- A result that was completed stays.
        have kept : ∀ fallback, (History.settled result).outcome fallback = result := by
          simp [History.outcome, completed]
        rw [kept] at held ⊢
        rw [setResultIfAbandoned_completed (by simpa [History.disposition, completed] using disposition),
          ← held]
      | true =>
        cases eq_pending completed
        cases given : resultIfAbandoned.isPending with
        | true =>
          cases eq_pending given
          rw [empty] at held
          rw [setResultIfAbandoned_pending, ← held]
        | false =>
          rw [setResultIfAbandoned_open (.inr disposition) given]
          rfl
    · cases same
      rfl

/-- The fallback is what is received after an abandonment, also one that has
already happened. -/
lemma Inv.promiseOr (phase : st.consumer = .holding)
    (resultIfAbandoned : Result V E) : Inv (st.promiseOr resultIfAbandoned) := by
  obtain ⟨none, _⟩ := inv.fresh phase
  obtain ⟨v, set, waiting, settled⟩ := inv.setResultIfAbandoned_eq phase resultIfAbandoned
  have promise := inv.promise phase
  have alone := inv.no_task none
  unfold State.promiseOr
  rw [set]
  refine { promise with
    consumer := ?_, fallback := waiting, result := ?_, received := ?_, fresh := nofun,
    resumes := fun _ waits => ?_, wanted := fun task found => ?_ }
  · rcases inv.waits_cases (.inl phase) with waiting | ⟨result, settled⟩
    · rw [waiting]
      exact trivial
    · rw [settled]
      exact trivial
  · intro result found
    have v := settled result found
    rw [← found] at v
    exact v
  · rw [promise.received_nil nofun] at ⊢
    unfold History.received
    split <;> simp_all
  · rw [none] at waits
    cases waits
  · exact (found.elim (alone task).2 (alone task).1).elim

/-- A poll of a bridge that is pending suspends one more task. -/
lemma Inv.poll_waiting (phase : st.consumer = .polling)
    (waiting : st.history = .waiting) : Inv st.poll := by
  obtain ⟨_, _, consumer, _, _, suspended, _, _, _, _, history⟩ := st
  cases waiting
  cases phase
  unfold State.poll
  rw [awaitResult_pending inv.disposition]
  refine { inv with
    consumer := trivial, fresh := nofun, task := rfl, places := fun other => ?_, resumes := nofun }
  have before := inv.places other
  simp only [State.places, Consumer.task, toList_none, count_nil, toList_some,
    count_singleton] at before ⊢
  by_cases same : suspended = other
  · subst same
    rw [if_neg (Nat.lt_irrefl _)] at before
    rw [if_pos (Nat.lt_succ_self _), if_pos (beq_self_eq_true _)]
    omega
  · have still : other < suspended + 1 ↔ other < suspended :=
      ⟨fun below => Nat.lt_of_le_of_ne (Nat.lt_succ_iff.mp below) (Ne.symm same), Nat.lt_succ_of_lt⟩
    rw [if_neg (by simpa using same), if_congr still rfl rfl]
    omega

/-- A poll of a bridge that is settled takes the result. -/
lemma Inv.poll_settled (phase : st.consumer = .polling)
    (settled : st.history = .settled result) : Inv st.poll := by
  obtain ⟨bridge, _, consumer, _, _, _, _, _, _, fallback, history⟩ := st
  cases settled
  cases phase
  have disposition := settled_disposition result
  rw [← inv.disposition]
    at disposition
  have held : bridge.result = _ := inv.result result rfl
  unfold State.poll
  rw [awaitResult_settled disposition, held]
  exact { inv with
    consumer := .inl rfl, disposition := rfl, fallback := nofun, result := nofun, fresh := nofun,
    task := inv.task }

lemma Inv.poll (phase : st.consumer = .polling) : Inv st.poll := by
  rcases inv.waits_cases (.inr phase) with waiting | ⟨_, settled⟩
  · exact inv.poll_waiting phase waiting
  · exact inv.poll_settled phase settled

lemma Inv.cancel (phase : st.consumer = .holding ∨ st.consumer = .polling) : Inv st.cancel := by
  have found := inv.waits_cases phase
  have none : st.received = [] := by
    refine inv.received_nil fun gone => ?_
    rw [gone] at phase
    rcases phase with phase | phase <;> cases phase
  have idle : st.consumer.task = Option.none ∧ st.consumer.refs = 1 := by
    rcases phase with phase | phase <;> rw [phase] <;> exact ⟨rfl, rfl⟩
  obtain ⟨bridge, completer, consumer, failed, deletions, suspended, resumed, released, received,
    fallback, history⟩ := st
  have refs : bridge.refCount = completer.refs + 1 := by
    have refs := inv.refs
    rw [idle.2] at refs
    exact refs
  unfold State.cancel
  rcases found with waiting | ⟨result, settled⟩
  · cases waiting
    rw [dropConsumptionRef_pending inv.disposition]
    refine { inv with
      refs, consumer := trivial, disposition := rfl, fallback := nofun, result := nofun,
      received := none, fresh := nofun, task := rfl, places := fun other => ?_, resumes := nofun }
    refine Eq.trans ?_ (inv.places other)
    simp only [State.places]
    rw [idle.1]
    simp only [Consumer.task, toList_none, count_nil]
    omega
  · cases settled
    have disposition := settled_disposition result
    rw [← inv.disposition]
      at disposition
    rw [dropConsumptionRef_settled disposition]
    refine { inv with
      refs, consumer := trivial, disposition := inv.disposition, fallback := nofun, result := nofun,
      received := none, fresh := nofun, task := inv.task, places := fun other => ?_ }
    refine Eq.trans ?_ (inv.places other)
    simp only [State.places]
    rw [idle.1]
    rfl

section

variable (moved : st.consumerStep = some next)
include moved

lemma Inv.replace (phase : st.consumer = .replacing held) : Inv next := by
  have refs := inv.refs
  have allowed := inv.consumer
  have none := inv.received_nil (by rw [phase]; nofun)
  unfold State.consumerStep at moved
  rw [phase] at moved refs allowed
  cases moved
  refine { inv with refs, consumer := ?_, received := ?_, fresh := nofun, places := fun other => ?_ }
  · cases history : st.history with
    | waiting | settled => exact trivial
    | _ =>
      rw [history] at allowed
      simp [History.Allows, Consumer.LetsGo] at allowed
  · unfold History.received
    split <;> simp_all
  · rw [← inv.places other]
    simp only [State.places, phase, Consumer.task, toList_none, count_nil, count_append]
    omega

lemma Inv.consume (phase : st.consumer = .consuming result) : Inv next := by
  have refs := inv.refs
  have allowed := inv.consumer
  have none := inv.received_nil (by rw [phase]; nofun)
  have one : st.consumer.refs = 1 := by rw [phase]; rfl
  unfold State.consumerStep at moved
  rw [phase] at moved allowed
  simp only [inv.drop_eq (show 0 < st.completer.refs + st.consumer.refs by omega)] at moved
  cases moved
  -- Only a poll that found a result is here.
  obtain ⟨settled, returned⟩ : ∃ settled, st.history = .returned settled := by
    cases history : st.history with
    | returned settled => exact ⟨settled, rfl⟩
    | _ =>
      rw [history] at allowed
      cases allowed
  rw [returned] at allowed
  have same : result = (History.returned settled).outcome st.fallback := by
    rcases allowed with same | gone
    · cases same
      rfl
    · cases gone
  refine { inv with
    refs := ?_, deletions := rfl, consumer := ?_, received := ?_, fresh := nofun,
    places := fun other => ?_ }
  · simp only [Consumer.refs]
    omega
  · rw [returned]
    exact .inr rfl
  · rw [none, returned, same]
    rfl
  · rw [← inv.places other]
    simp only [State.places, phase, Consumer.task]

lemma Inv.consumer_drop (phase : st.consumer = .dropping held) : Inv next := by
  have refs := inv.refs
  have allowed := inv.consumer
  have none := inv.received_nil (by rw [phase]; nofun)
  have one : st.consumer.refs = 1 := by rw [phase]; rfl
  unfold State.consumerStep at moved
  rw [phase] at moved allowed
  simp only [inv.drop_eq (show 0 < st.completer.refs + st.consumer.refs by omega)] at moved
  cases moved
  refine { inv with
    refs := ?_, deletions := rfl, consumer := ?_, received := ?_, fresh := nofun,
    places := fun other => ?_ }
  · simp only [Consumer.refs]
    omega
  · cases history : st.history with
    | waiting | settled => rw [history] at allowed; cases allowed
    | returned => rw [history] at allowed; rcases allowed with gone | gone <;> cases gone
    | _ => exact trivial
  · unfold History.received
    split <;> simp_all
  · rw [← inv.places other]
    simp only [State.places, phase, Consumer.task]

lemma Inv.consumer_leave (phase : st.consumer = .leaving held) : Inv next := by
  have refs := inv.refs
  have allowed := inv.consumer
  have none := inv.received_nil (by rw [phase]; nofun)
  unfold State.consumerStep at moved
  rw [phase] at moved refs allowed
  cases moved
  have canceled : ∀ result, st.history ≠ .returned result := by
    intro result returned
    rw [returned] at allowed
    rcases allowed with gone | gone <;> cases gone
  refine { inv with refs, consumer := ?_, received := ?_, fresh := nofun, places := fun other => ?_ }
  · cases history : st.history with
    | waiting | settled => rw [history] at allowed; cases allowed
    | returned result => exact .inr rfl
    | _ => exact trivial
  · rw [none]
    unfold History.received
    split
    next result returned _ => exact absurd returned (canceled result)
    · rfl
  · rw [← inv.places other]
    simp only [State.places, phase, Consumer.task, toList_none, count_nil, count_append]
    omega

lemma Inv.consumerStep : Inv next := by
  cases phase : st.consumer with
  | replacing held => exact inv.replace moved phase
  | consuming => exact inv.consume moved phase
  | dropping held => exact inv.consumer_drop moved phase
  | leaving held => exact inv.consumer_leave moved phase
  | _ =>
    unfold State.consumerStep at moved
    rw [phase] at moved
    cases moved

end

lemma Inv.step (moved : step st label = some next) : Inv next := by
  unfold BridgeProtocol.step at moved
  split at moved
  · split at moved <;> cases moved
    rename_i enabled
    exact inv.complete enabled.1 enabled.2
  · split at moved <;> cases moved
    rename_i enabled
    exact inv.abandon enabled
  · exact inv.completerStep moved
  · split at moved <;> cases moved
    rename_i phase
    exact inv.promise phase
  · split at moved <;> cases moved
    rename_i phase
    exact inv.promiseOr phase _
  · split at moved <;> cases moved
    rename_i phase
    exact inv.poll phase
  · split at moved <;> cases moved <;> rename_i phase
    · exact inv.cancel (.inl phase)
    · exact inv.cancel (.inr phase)
  · exact inv.consumerStep moved

end

end

/-! ## Runs -/

section

variable {st next final : State V E} {labels : List (Label V E)}

/-- A poll suspends a task as long as nothing is settled, and then takes what is to
be received. -/
def PollAnswers (st : State V E) (label : Label V E) (next : State V E) : Prop :=
  label = .poll →
    st.history = .waiting ∧ next.bridge.task = some st.suspended ∧
        next.suspended = st.suspended + 1 ∨
      ∃ result, st.history = .settled result ∧
        next.consumer = .consuming (st.history.outcome st.fallback)

private lemma poll_answers (inv : Inv st) (moved : step st label = some next) :
    PollAnswers st label next := by
  rintro rfl
  simp only [step] at moved
  split at moved <;> cases moved
  rename_i phase
  unfold State.poll
  rcases inv.waits_cases (.inr phase) with waiting | ⟨result, settled⟩
  · have disposition := inv.disposition
    rw [waiting] at disposition
    rw [awaitResult_pending disposition]
    exact .inl ⟨waiting, rfl, rfl⟩
  · have disposition := settled_disposition result
    rw [← settled, ← inv.disposition] at disposition
    rw [awaitResult_settled disposition]
    refine .inr ⟨result, settled, ?_⟩
    rw [← inv.result result settled]

/-- Neither of the two is inside a call. -/
def Quiet (st : State V E) : Prop :=
  st.completer = .done ∧ (st.consumer = .done ∨ st.consumer = .polling)

/-- What becomes of the task that was suspended last. -/
lemma Inv.last_task (inv : Inv st) (quiet : Quiet st) (some : 0 < st.suspended) :
    if (st.history.outcome st.fallback).isPending = false then
      st.resumed.count (st.suspended - 1) = 1 ∧ st.released.count (st.suspended - 1) = 0 else
      st.resumed.count (st.suspended - 1) = 0 ∧ st.released.count (st.suspended - 1) = 1 := by
  obtain ⟨done, away⟩ := quiet
  have once := inv.places (st.suspended - 1)
  have held : st.consumer.task = none := by
    rcases away with phase | phase <;> rw [phase] <;> rfl
  have task : st.bridge.task = none := by
    rw [inv.task]
    cases history : st.history with
    | waiting =>
      have holding := inv.completer.mpr (by rw [history]; exact trivial)
      rw [done] at holding
      cases holding
    | _ => rfl
  simp only [State.places, done, held, task, Completer.task, toList_none, count_nil]
    at once
  rw [if_pos (Nat.sub_lt some Nat.one_pos)] at once
  split <;> rename_i received
  · have resumed := (inv.resumes received some).resolve_left (by rw [done]; nofun)
    have counted := count_pos_iff.mpr resumed
    omega
  · have unresumed : st.suspended - 1 ∉ st.resumed := fun found =>
      received (inv.wanted _ (.inr found))
    have counted := count_eq_zero.mpr unresumed
    omega

/-- Every interleaving of a completer and a consumer: no assertion fails; the
consumer receives at most one result, that of the completion or the fallback, at the
first poll after the completer; the task that was suspended last is resumed once if
there is something to receive and released otherwise; the bridge is deleted once,
with the second of the two references. -/
theorem bridge_protocol (ran : run step ({} : State V E) labels = some final) :
    final.failed = false ∧
      (final.received = [] ∨ ∃ result, final.history = .returned result ∧
        final.received = [if result.isPending then final.fallback else result]) ∧
      Along step PollAnswers {} labels ∧
      (Quiet final → 0 < final.suspended →
        if (final.history.outcome final.fallback).isPending = false then
          final.resumed.count (final.suspended - 1) = 1 ∧
            final.released.count (final.suspended - 1) = 0
        else final.resumed.count (final.suspended - 1) = 0 ∧
            final.released.count (final.suspended - 1) = 1) ∧
      final.deletions = if final.completer.refs + final.consumer.refs = 0 then 1 else 0 := by
  have keeps : ∀ (st : State V E) label next, Inv st → step st label = some next → Inv next :=
    fun _ _ _ inv stepped => inv.step stepped
  have inv := run_keeps keeps inv_start ran
  refine ⟨inv.failed, ?_, ?_, inv.last_task, ?_⟩
  · have received := inv.received
    unfold History.received at received
    split at received
    next result returned _ => exact .inr ⟨result, returned, received⟩
    · exact .inl received
  · exact along_keeps keeps (fun _ _ _ inv stepped => poll_answers inv stepped) inv_start
  · rw [← inv.refs]
    exact inv.deletions

/-- A task is suspended, the completer completes, and the next poll receives the
result and not the fallback. -/
def rendezvous : List (Label Nat Nat) :=
  [.promiseOr (.error 1), .poll, .consumerStep, .complete (.ok 7), .completerStep, .poll,
    .completerStep, .consumerStep, .completerStep]

theorem bridge_protocol_rendezvous :
    ∃ final, run step {} rendezvous = some final ∧ final.received = [.ok 7] ∧
      final.resumed.count 0 = 1 ∧ final.released.count 0 = 0 ∧ final.deletions = 1 := by
  obtain ⟨final, ran, quiet, received, suspended, refs⟩ : ∃ final,
      run step {} rendezvous = some final ∧ Quiet final ∧ final.received = [.ok 7] ∧
        final.suspended = 1 ∧ final.completer.refs + final.consumer.refs = 0 ∧
        (final.history.outcome final.fallback).isPending = false := by
    exact ⟨_, rfl, ⟨rfl, .inl rfl⟩, rfl, rfl, rfl, rfl⟩
  obtain ⟨_, _, _, last, deletions⟩ := bridge_protocol ran
  have fate := last quiet (by omega)
  rw [if_pos refs.2, suspended] at fate
  rw [if_pos refs.1] at deletions
  exact ⟨final, ran, received, fate.1, fate.2, deletions⟩

/-! ## Polling again -/

/-- The promise is outside a call and keeps its continuation: what it returned was pending. -/
def State.Callable (st : State V E) : Prop :=
  st.consumer = .polling ∨
    st.consumer = .done ∧ ∃ result, st.received = [result] ∧ result.isPending = true

/-- `ref_.get()` in the continuation. -/
def State.ref (st : State V E) : Option (BridgeState V E) :=
  if st.consumer.refs = 0 then none else some st.bridge

/-- A further poll acts on the bridge, and no assertion fails. -/
def State.PollsAgain (st : State V E) : Prop :=
  st.Callable → ∃ bridge, st.ref = some bridge ∧ bridge.awaitResult st.suspended ≠ none

lemma Inv.polls (inv : Inv st) (phase : st.consumer = .polling) :
    st.bridge.awaitResult st.suspended ≠ none := by
  intro missing
  have failed := (inv.poll phase).failed
  unfold State.poll at failed
  rw [missing] at failed
  cases failed

/-- A promise can be polled again after a pending result exactly if that was not the pending
fallback of a bridge that was abandoned: such a poll has let go of the reference. -/
theorem polls_again_iff (ran : run step ({} : State V E) labels = some final) :
    final.PollsAgain ↔
      ¬ (final.consumer = .done ∧ final.history = .returned .pending ∧
        final.fallback.isPending = true) := by
  have inv := run_keeps (fun _ _ _ inv stepped => Inv.step inv stepped) inv_start ran
  have received := inv.received
  constructor
  · rintro again ⟨done, returned, pending⟩
    rw [done, returned] at received
    obtain ⟨bridge, live, -⟩ := again (.inr ⟨done, _, received, pending⟩)
    rw [State.ref, done] at live
    cases live
  · rintro kept (polling | ⟨done, _, taken, pending⟩)
    · refine ⟨final.bridge, ?_, inv.polls polling⟩
      rw [State.ref, polling]
      rfl
    · rw [taken] at received
      unfold History.received at received
      split at received <;> cases received
      rename_i settled returned _
      rw [History.outcome] at pending
      cases abandoned : settled.isPending with
      | false =>
        rw [abandoned] at pending
        exact absurd (pending.symm.trans abandoned) nofun
      | true =>
        rw [abandoned] at pending
        exact absurd ⟨done, eq_pending abandoned ▸ returned, pending⟩ kept

theorem polls_again_waiting : ∃ final : State Nat Nat,
    run step {} [.promise, .poll, .consumerStep] = some final ∧ final.Callable ∧ final.PollsAgain :=
  ⟨_, rfl, .inl rfl, (@polls_again_iff _ _ _ [.promise, .poll, .consumerStep] rfl).mpr nofun⟩

/-- The completer is gone, the poll returns the pending fallback, and the next one has no bridge. -/
theorem polled_again_released : ∃ final : State Nat Nat,
    run step {} [.promise, .abandon, .poll, .consumerStep] = some final ∧
      final.received = [.pending] ∧ final.Callable ∧ final.ref = none ∧ ¬ final.PollsAgain :=
  ⟨_, rfl, rfl, .inr ⟨rfl, _, rfl, rfl⟩, rfl, fun again => by
    obtain ⟨_, live, -⟩ := again (.inr ⟨rfl, _, rfl, rfl⟩)
    cases live⟩

end

end FuchsiaSdk.BridgeProtocol
