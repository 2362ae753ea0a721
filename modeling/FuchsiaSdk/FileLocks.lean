import FuchsiaSdk.SortedMap

/-! The advisory lock of a file: `FileLock`, which grants shared and exclusive
locks to owners and keeps the completers of those who wait. -/
namespace FuchsiaSdk.FileLocks

abbrev Koid : Type := Nat

/-- `ZX_KOID_INVALID`. -/
def koidInvalid : Koid := 0

inductive Status where
  | ok
  | badState
  | shouldWait
  | canceled
  deriving DecidableEq, Repr

inductive LockType where
  | read
  | write
  | unlock
  deriving DecidableEq, Repr

structure LockRequest where
  type : LockType
  wait : Bool
  deriving DecidableEq, Repr

/-- A completer is known by the number of the call that it was passed to. -/
abbrev Completer : Type := Nat

/-- A completer was invoked; the locks that were held at that moment. -/
structure Invocation where
  completer : Completer
  status : Status
  shared : Finset Koid
  exclusive : Koid
  deriving DecidableEq

structure FileLock where
  pendingShared : SortedMap Koid Completer := .empty
  pendingExclusive : SortedMap Koid Completer := .empty
  shared : Finset Koid := ∅
  exclusive : Koid := koidInvalid
  running : Bool := true
  /-- All invocations of completers so far. -/
  invocations : List Invocation := []

namespace FileLock

def invoke (lock : FileLock) (status : Status) (completer : Completer) : FileLock :=
  { lock with
    invocations := lock.invocations ++ [⟨completer, status, lock.shared, lock.exclusive⟩] }

/-- The loops over a map of pending requests. -/
def invokeAll (lock : FileLock) (status : Status) (completers : List Completer) : FileLock :=
  completers.foldl (fun lock completer => lock.invoke status completer) lock

/-- `LockInProgress`. -/
def lockInProgress (lock : FileLock) (owner : Koid) : Bool :=
  owner ∈ lock.pendingExclusive ∨ owner ∈ lock.pendingShared

/-- Unblock all shared clients. -/
def grantShared (lock : FileLock) : FileLock :=
  { lock with
    shared := lock.shared ∪ lock.pendingShared.keys.toFinset
    pendingShared := .empty }.invokeAll .ok lock.pendingShared.values

/-- Unblock the first exclusive client, if there is one. -/
def grantExclusive (lock : FileLock) : FileLock :=
  match lock.pendingExclusive.entries with
  | [] => lock
  | (owner, completer) :: _ =>
    { lock with
      exclusive := owner
      pendingExclusive := lock.pendingExclusive.tail }.invoke .ok completer

/-- `Lock` for the owner of the exclusive lock. -/
def lockHolder (lock : FileLock) (owner : Koid) (type : LockType) : FileLock :=
  match type with
  | .read => { lock with exclusive := koidInvalid, shared := insert owner lock.shared }.grantShared
  | .write => lock
  | .unlock =>
    let released := { lock with exclusive := koidInvalid }
    if lock.pendingShared.size > lock.pendingExclusive.size then released.grantShared
    else released.grantExclusive

/-- `Lock` while another owner has the exclusive lock. -/
def lockContended (lock : FileLock) (owner : Koid) (request : LockRequest) (completer : Completer) :
    FileLock :=
  match request.type with
  | .read =>
    if request.wait then
      { lock with pendingShared := lock.pendingShared.emplace owner completer }
    else lock.invoke .shouldWait completer
  | .write =>
    if request.wait then
      { lock with pendingExclusive := lock.pendingExclusive.emplace owner completer }
    else lock.invoke .shouldWait completer
  | .unlock => lock.invoke .ok completer

/-- `Lock` while nobody has the exclusive lock. -/
def lockShared (lock : FileLock) (owner : Koid) (request : LockRequest) (completer : Completer) :
    FileLock :=
  match request.type with
  | .read => { lock with shared := insert owner lock.shared }.invoke .ok completer
  | .write =>
    let dropped := { lock with shared := lock.shared.erase owner }
    if dropped.shared = ∅ then { dropped with exclusive := owner }.invoke .ok completer
    else if request.wait then
      { dropped with pendingExclusive := lock.pendingExclusive.emplace owner completer }
    else dropped.invoke .shouldWait completer
  | .unlock =>
    if owner ∈ lock.shared then
      let released := { lock with shared := lock.shared.erase owner }
      (if released.shared = ∅ then released.grantExclusive else released).invoke .ok completer
    else lock.invoke .ok completer

/-- `Lock`. -/
def lock (lock : FileLock) (owner : Koid) (request : LockRequest) (completer : Completer) :
    FileLock :=
  if !lock.running || lock.lockInProgress owner then lock.invoke .badState completer
  else if lock.exclusive ≠ koidInvalid then
    if owner = lock.exclusive then (lock.lockHolder owner request.type).invoke .ok completer
    else lock.lockContended owner request completer
  else lock.lockShared owner request completer

/-- `Forget`, with the number of its own completer. -/
def forget (lock : FileLock) (owner : Koid) (completer : Completer) : FileLock × Bool :=
  let lock := lock.lock owner ⟨.unlock, false⟩ completer
  (lock, lock.invocations.any fun call => call.completer = completer ∧ call.status = .ok)

/-- `~FileLock`. Both loops go over the shared clients. -/
def destroy (lock : FileLock) : FileLock :=
  let stopped := { lock with running := false }
  (stopped.invokeAll .canceled lock.pendingShared.values).invokeAll .canceled
    lock.pendingShared.values

end FileLock

/-! ## Histories -/

inductive Call where
  | lock (owner : Koid) (request : LockRequest)
  | forget (owner : Koid)
  deriving DecidableEq, Repr

def Call.owner : Call → Koid
  | .lock owner _ => owner
  | .forget owner => owner

def Call.request : Call → LockRequest
  | .lock _ request => request
  | .forget _ => ⟨.unlock, false⟩

/-- A call with the number of its completer. -/
def Call.apply (completer : Completer) (lock : FileLock) : Call → FileLock
  | .lock owner request => lock.lock owner request completer
  | .forget owner => (lock.forget owner completer).1

lemma Call.apply_eq (lock : FileLock) (call : Call) :
    call.apply completer lock = lock.lock call.owner call.request completer := by
  cases call <;> rfl

/-- Calls one after the other, the first of which has a given number. -/
def runFrom (lock : FileLock) (completer : Completer) : List Call → FileLock
  | [] => lock
  | call :: rest => runFrom (call.apply completer lock) (completer + 1) rest

/-- The calls on a new object. -/
def run (history : List Call) : FileLock := runFrom {} 0 history

lemma runFrom_append : runFrom lock completer (first ++ second) =
      runFrom (runFrom lock completer first) (completer + first.length) second := by
  induction first generalizing lock completer with
  | nil => rfl
  | cons _ _ ih =>
    rw [List.cons_append, runFrom, runFrom, ih, List.length_cons, Nat.add_right_comm, Nat.add_assoc]

lemma run_append (first second : List Call) :
    run (first ++ second) = runFrom (run first) first.length second := by
  rw [run, runFrom_append, Nat.zero_add]
  rfl

lemma run_concat : run (history ++ [call]) = (run history).lock call.owner call.request history.length := by
  rw [run_append]
  simp only [runFrom, Call.apply_eq]

/-- What holds at first and is kept by every call holds after every history. -/
lemma run_induction {motive : List Call → FileLock → Prop} (start : motive [] {})
    (step : ∀ history lock call, motive history lock →
      motive (history ++ [call]) (lock.lock call.owner call.request history.length))
    (history : List Call) : motive history (run history) := by
  induction history using List.reverseRecOn with
  | nil => exact start
  | append_singleton history call ih =>
    rw [run_concat]
    exact step history _ call ih

end FuchsiaSdk.FileLocks
