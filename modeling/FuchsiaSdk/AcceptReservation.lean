import FuchsiaSdk.FdTable
import FuchsiaSdk.Machine

/-! `accept4` of `bsdsocket.cc` against the descriptor table. A call reserves a
slot, accepts on the remote without holding `fdio_lock`, and then fills its
slot or looks for another one; the deferred `release_reservation` runs after
the lock of that last section is gone. Reservations have no owner, and `dup2`
and `fdio_bind_to_fd` overwrite them, so the last section can meet any slot
contents. What it returns is compared with the table it leaves. -/
namespace FuchsiaSdk.AcceptReservation
open FdTable Machine Function

/-- The arguments `accept4` checks before it touches the table: whether
`flags` has a bit outside `kSockFlagsMask`, and which of `addr` and `addrlen`
are null. -/
structure Arguments where
  fd : Int
  unknownFlags : Bool
  addrNull : Bool
  addrlenNull : Bool
  deriving DecidableEq, Repr

/-- How `zxio_accept` and the surrounding wait loop end. -/
inductive RemoteOutcome (Io : Type) where
  | accepted (ptr : Io)
  | failed (error : Errno)
  deriving DecidableEq, Repr

/-- Where one `accept4` call stands. -/
inductive Phase (Io : Type) (maxFd : Nat) where
  /-- Not called yet. -/
  | idle
  /-- Holds the index of its reservation; `fd_to_io(fd)` comes next. -/
  | reserved (fd : Int) (nfd : Fin maxFd)
  /-- The remote accept is pending. -/
  | accepting (nfd : Fin maxFd)
  /-- The remote accept succeeded; the last locked section comes next. -/
  | accepted (nfd : Fin maxFd) (ptr : Io)
  /-- The result is fixed and the deferred release still has to run. -/
  | unwinding (nfd : Fin maxFd) (result : Except Errno (Fin maxFd))
  | returned (result : Except Errno (Fin maxFd))

/-- Calls are named by numbers; any number of them may be under way. -/
abbrev CallId : Type := Nat

structure State (Io : Type) (maxFd : Nat) where
  table : Table Io maxFd
  calls : CallId → Phase Io maxFd

/-- One critical section of one thread. -/
inductive Label (Io : Type) where
  | accept4 (call : CallId) (arguments : Arguments)
  | allocateFailed (call : CallId)
  | lookup (call : CallId)
  | remote (call : CallId) (outcome : RemoteOutcome Io)
  | finish (call : CallId)
  | release (call : CallId)
  | dup (oldfd : Int)
  | dup2 (oldfd newfd : Int)
  | close (fd : Int)
  | bindToFd (ptr : Io)
  | fcntlDupFd (fd startingFd : Int)
  | fdioBindToFd (ptr : Io) (fd startingFd : Int)
  deriving DecidableEq, Repr

variable {Io : Type} {maxFd : Nat}

/-- The fallback loop of `accept4`. The loop variable is `i`, the slot it tries
is `nfd` in every iteration. -/
def fallbackLoop (table : Table Io maxFd) (nfd : Fin maxFd) (ptr : Io) :
    List (Fin maxFd) → Option (Fin maxFd × Table Io maxFd)
  | [] => none
  | i :: rest =>
    match (table nfd).trySet ptr with
    | some slot => some (i, Function.update table nfd slot)
    | none => fallbackLoop table nfd ptr rest

/-- The last locked section of `accept4`. -/
def finishLocked (table : Table Io maxFd) (nfd : Fin maxFd) (ptr : Io) :
    Except Errno (Fin maxFd) × Table Io maxFd :=
  match (table nfd).tryFill ptr with
  | some slot => (.ok nfd, Function.update table nfd slot)
  | none => orEmfile table (fallbackLoop table nfd ptr (List.finRange maxFd))

def State.setCall (st : State Io maxFd) (call : CallId) (phase : Phase Io maxFd) :
    State Io maxFd :=
  { st with calls := Function.update st.calls call phase }

/-- The first locked section: argument checks and the reservation. -/
def beginAccept (st : State Io maxFd) (call : CallId) (arguments : Arguments) : State Io maxFd :=
  if arguments.unknownFlags ∨ arguments.addrNull ≠ arguments.addrlenNull then
    st.setCall call (.returned (.error .EINVAL))
  else
    match firstFd Slot.tryReserve st.table (List.finRange maxFd) with
    | none => st.setCall call (.returned (.error .EMFILE))
    | some (nfd, table) => { st with table }.setCall call (.reserved arguments.fd nfd)

/-- One step of the system. A label is enabled only in the phase it belongs to. -/
def step (st : State Io maxFd) : Label Io → Option (State Io maxFd)
  | .accept4 call arguments =>
    match st.calls call with
    | .idle => some (beginAccept st call arguments)
    | _ => none
  | .allocateFailed call =>
    match st.calls call with
    | .reserved _ nfd => some (st.setCall call (.unwinding nfd (.error .noMemory)))
    | _ => none
  | .lookup call =>
    match st.calls call with
    | .reserved fd nfd =>
      match fdToIo st.table fd with
      | none => some (st.setCall call (.unwinding nfd (.error .EBADF)))
      | some _ => some (st.setCall call (.accepting nfd))
    | _ => none
  | .remote call outcome =>
    match st.calls call, outcome with
    | .accepting nfd, .accepted ptr => some (st.setCall call (.accepted nfd ptr))
    | .accepting nfd, .failed error => some (st.setCall call (.unwinding nfd (.error error)))
    | _, _ => none
  | .finish call =>
    match st.calls call with
    | .accepted nfd ptr =>
      let (result, table) := finishLocked st.table nfd ptr
      some ({ st with table }.setCall call (.unwinding nfd result))
    | _ => none
  | .release call =>
    match st.calls call with
    | .unwinding nfd result =>
      some ({ st with
        table := Function.update st.table nfd (st.table nfd).releaseReservation }.setCall
          call (.returned result))
    | _ => none
  | .dup oldfd => some { st with table := (FdTable.dup st.table oldfd).2 }
  | .dup2 oldfd newfd => some { st with table := (FdTable.dup2 st.table oldfd newfd).2 }
  | .close fd => some { st with table := (unbindFromFd st.table fd).2 }
  | .bindToFd ptr => some { st with table := (FdTable.bindToFd st.table ptr).2 }
  | .fcntlDupFd fd startingFd =>
    some { st with table := (FdTable.fcntlDupFd st.table fd startingFd).2 }
  | .fdioBindToFd ptr fd startingFd =>
    some { st with table := (FdTable.fdioBindToFd st.table ptr fd startingFd).2 }

/-- The result of the last section agrees with the table: a returned descriptor
names the slot that now holds the accepted io, nothing else changed, and
`EMFILE` means that no slot was available. -/
def ResultAgrees (before after : Table Io maxFd) (ptr : Io) : Except Errno (Fin maxFd) → Prop
  | .ok fd => after fd = .io ptr ∧ ∀ other, other ≠ fd → after other = before other
  | .error .EMFILE => ∀ fd, before fd ≠ .available
  | .error _ => True

/-- What is asked of a step: if it is the last section of an `accept4` call,
its result agrees with the table. -/
def ReturnAgrees (before : State Io maxFd) (label : Label Io) (after : State Io maxFd) : Prop :=
  ∀ call nfd ptr result, label = .finish call → before.calls call = .accepted nfd ptr →
    after.calls call = .unwinding nfd result → ResultAgrees before.table after.table ptr result

/-- The slot contents the last section handles: its reservation is still in
place; or the slot was freed and is the first of the table; or the slot is
taken and there is no other one to find. -/
def SlotSafe (table : Table Io maxFd) (nfd : Fin maxFd) : Prop :=
  match table nfd with
  | .reserved => True
  | .available => nfd.val = 0
  | .io _ => ∀ fd, table fd ≠ .available

def FinishSafe (st : State Io maxFd) (label : Label Io) : Prop :=
  ∀ call nfd ptr, label = .finish call → st.calls call = .accepted nfd ptr → SlotSafe st.table nfd

/-- The fallback loop looks at one slot only. When that slot is available, the
first index is returned for it. -/
private lemma fallbackLoop_available (free : table nfd = .available) :
    fallbackLoop table nfd ptr (List.finRange maxFd) = some (⟨0, nfd.pos⟩, update table nfd (.io ptr)) := by
  cases maxFd with
  | zero => exact nfd.elim0
  | succ =>
    rw [List.finRange_succ, fallbackLoop, free]
    rfl

/-- When that slot is not available, the loop runs out however many others are. -/
private lemma fallbackLoop_taken (taken : table nfd ≠ .available) : fallbackLoop table nfd ptr fds = none := by
  induction fds with
  | nil => rfl
  | cons _ _ ih =>
    cases contents : table nfd with
    | available => exact absurd contents taken
    | reserved | io => simpa only [fallbackLoop, contents, Slot.trySet] using ih

/-- The last section agrees with the table exactly on the slot contents it
handles. -/
lemma finishLocked_agrees_iff :
    ResultAgrees table (finishLocked table nfd ptr).2 ptr (finishLocked table nfd ptr).1 ↔
      SlotSafe table nfd := by
  cases contents : table nfd with
  | reserved =>
    simp only [finishLocked, contents, Slot.tryFill, SlotSafe, ResultAgrees, iff_true]
    exact ⟨update_self .., fun other different => update_of_ne different ..⟩
  | available =>
    simp only [finishLocked, contents, Slot.tryFill, SlotSafe, fallbackLoop_available contents,
      orEmfile, ResultAgrees]
    constructor
    · rintro ⟨-, unchanged⟩
      by_contra notFirst
      -- The slot that was really set is not the one returned, so it counts as another one.
      have same := unchanged nfd (fun first => notFirst (congrArg Fin.val first))
      rw [update_self, contents] at same
      cases same
    · intro first
      have returned : (⟨0, nfd.pos⟩) = nfd := Fin.ext first.symm
      rw [returned]
      exact ⟨update_self .., fun other different => update_of_ne different ..⟩
  | io other =>
    have taken : table nfd ≠ .available := by simp [contents]
    simp only [finishLocked, contents, Slot.tryFill, SlotSafe, fallbackLoop_taken taken, orEmfile,
      ResultAgrees]

/-- One step of the system: the judgement of its result is the condition on the
slot it finds. -/
lemma step_agrees_iff (moved : step before label = some after) :
    ReturnAgrees before label after ↔ FinishSafe before label := by
  constructor
  · intro agrees call nfd ptr isFinish phase
    subst isFinish
    simp only [step, phase, Option.some.injEq] at moved
    subst moved
    have judged := agrees call nfd ptr (finishLocked before.table nfd ptr).1 rfl phase
      (by simp [State.setCall])
    exact (finishLocked_agrees_iff).mp judged
  · intro safe call nfd ptr _ isFinish phase settled
    subst isFinish
    have slotSafe := safe call nfd ptr rfl phase
    simp only [step, phase, Option.some.injEq] at moved
    subst moved
    simp only [State.setCall, update_self, Phase.unwinding.injEq, true_and] at settled
    subst settled
    exact (finishLocked_agrees_iff).mpr slotSafe

/-- **Table agreement.** Over every interleaving, the results of all `accept4`
calls agree with the table exactly when every last section runs on slot
contents it handles. -/
theorem accept4_agrees_iff (start : State Io maxFd) (labels : List (Label Io)) :
    Along step ReturnAgrees start labels ↔ Admissible step FinishSafe start labels :=
  along_congr fun _ _ _ stepped => step_agrees_iff stepped

/-- Three open descriptors, nothing reserved, no call under way. -/
def startup : State Nat fdioMaxFd where
  table fd := if fd.val < 3 then .io fd.val else .available
  calls _ := .idle

/-- A listening socket on descriptor 0 accepts while another thread evicts the
reservation with `dup2` and closes the result again. -/
def evictedThenFreed : List (Label Nat) :=
  [.accept4 0 ⟨0, false, true, true⟩, .lookup 0, .dup2 1 3, .close 3, .remote 0 (.accepted 7)]

set_option maxRecDepth 16000 in
/-- The accepted io is stored at descriptor 3 and descriptor 0 is returned. -/
theorem accept4_returns_other_slot :
    ¬ Along step ReturnAgrees startup (evictedThenFreed ++ [.finish 0]) := by
  intro agrees
  have judged := along_at agrees rfl rfl
  have held := (judged 0 ⟨3, by decide⟩ 7 (.ok ⟨0, by decide⟩) rfl rfl rfl).1
  exact absurd held (by decide)

end FuchsiaSdk.AcceptReservation
