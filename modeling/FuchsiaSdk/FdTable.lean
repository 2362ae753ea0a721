import Mathlib.Logic.Function.Basic
import Mathlib.Data.List.FinRange

/-! The descriptor table of fdio: the slots of `fdio_slot.cc` and the
operations of `fdio_unistd.cc`, `fdio.cc` and `unistd.cc` that change them.
Each operation is what runs under `fdio_lock`. The results hold for tables of
any size `maxFd`, that of the code is `FDIO_MAX_FD`; an `fdio_t*` is an element
of the arbitrary type `Io`. -/
namespace FuchsiaSdk.FdTable

/-- `FDIO_MAX_FD` (`fdio/limits.h`). -/
def fdioMaxFd : Nat := 1024

/-- `fdio_slot::inner_`, a `std::variant<available, reserved, fdio_t*>`. -/
inductive Slot (Io : Type) where
  | available
  | reserved
  | io (ptr : Io)
  deriving DecidableEq, Repr

namespace Slot

/-- `fdio_slot::get`. -/
def get : Slot Io → Option Io
  | .io ptr => some ptr
  | _ => none

/-- `fdio_slot::release`: the io that was held, and the slot left behind. -/
def release : Slot Io → Option Io × Slot Io
  | .io ptr => (some ptr, .available)
  | slot => (none, slot)

/-- `fdio_slot::try_set`: `none` stands for `false`, with the slot unchanged. -/
def trySet (ptr : Io) : Slot Io → Option (Slot Io)
  | .available => some (.io ptr)
  | _ => none

/-- `fdio_slot::replace` overwrites whatever was there, a reservation included. -/
def replace (ptr : Io) (slot : Slot Io) : Option Io × Slot Io := (slot.get, .io ptr)

/-- `fdio_slot::try_reserve`. -/
def tryReserve : Slot Io → Option (Slot Io)
  | .available => some .reserved
  | _ => none

/-- `fdio_slot::try_fill`. -/
def tryFill (ptr : Io) : Slot Io → Option (Slot Io)
  | .reserved => some (.io ptr)
  | _ => none

/-- `fdio_slot::release_reservation`. A reservation has no owner: whichever
one sits in the slot is dropped. -/
def releaseReservation : Slot Io → Slot Io
  | .reserved => .available
  | slot => slot

end Slot

/-- `fdio_fdtab`. -/
abbrev Table (Io : Type) (maxFd : Nat) : Type := Fin maxFd → Slot Io

/-- The values of `errno` that the descriptor operations below report.
`noMemory` is the bare `ZX_ERR_NO_MEMORY` that `accept4` returns. -/
inductive Errno where
  | EINVAL
  | EBADF
  | EMFILE
  | noMemory
  | other (code : Nat)
  deriving DecidableEq, Repr

variable {Io : Type} {maxFd : Nat}

/-- `slot_locked`: the slot index of a descriptor, if it is in range. -/
def slotLocked (maxFd : Nat) (fd : Int) : Option (Fin maxFd) :=
  if inRange : 0 ≤ fd ∧ fd < maxFd then some ⟨fd.toNat, by omega⟩ else none

/-- `fd_to_io_locked`. -/
def fdToIo (table : Table Io maxFd) (fd : Int) : Option Io :=
  (slotLocked maxFd fd).bind fun slot => (table slot).get

/-- The loop shared by `bind_to_fd_locked`, `F_DUPFD`, `fdio_bind_to_fd` and the
reservation of `accept4`: the first listed slot on which `attempt` succeeds. -/
def firstFd (attempt : Slot Io → Option (Slot Io)) (table : Table Io maxFd) :
    List (Fin maxFd) → Option (Fin maxFd × Table Io maxFd)
  | [] => none
  | fd :: rest =>
    match attempt (table fd) with
    | some slot => some (fd, Function.update table fd slot)
    | none => firstFd attempt table rest

/-- A search that ends with `EMFILE` when no slot is found. -/
def orEmfile (table : Table Io maxFd) :
    Option (Fin maxFd × Table Io maxFd) → Except Errno (Fin maxFd) × Table Io maxFd
  | some (fd, next) => (.ok fd, next)
  | none => (.error .EMFILE, table)

/-- `bind_to_fd_locked`, with the `EMFILE` its callers make of `nullopt`. -/
def bindToFd (table : Table Io maxFd) (ptr : Io) : Except Errno (Fin maxFd) × Table Io maxFd :=
  orEmfile table (firstFd (Slot.trySet ptr) table (List.finRange maxFd))

/-- The descriptors `starting_fd, ..., FDIO_MAX_FD - 1`. -/
def fdsFrom (maxFd : Nat) (startingFd : Int) : List (Fin maxFd) :=
  (List.finRange maxFd).filter fun fd => startingFd ≤ fd.val

/-- `unbind_from_fd_locked`, the locked part of `close`. -/
def unbindFromFd (table : Table Io maxFd) (fd : Int) : Option Io × Table Io maxFd :=
  match slotLocked maxFd fd with
  | none => (none, table)
  | some slot => ((table slot).release.1, Function.update table slot (table slot).release.2)

/-- `dup2`. -/
def dup2 (table : Table Io maxFd) (oldfd newfd : Int) : Except Errno (Fin maxFd) × Table Io maxFd :=
  match slotLocked maxFd newfd with
  | none => (.error .EBADF, table)
  | some slot =>
    match fdToIo table oldfd with
    | none => (.error .EBADF, table)
    | some ptr => (.ok slot, Function.update table slot ((table slot).replace ptr).2)

/-- `dup`. -/
def dup (table : Table Io maxFd) (oldfd : Int) : Except Errno (Fin maxFd) × Table Io maxFd :=
  match fdToIo table oldfd with
  | none => (.error .EBADF, table)
  | some ptr => bindToFd table ptr

/-- `fcntl` with `F_DUPFD` or `F_DUPFD_CLOEXEC`. -/
def fcntlDupFd (table : Table Io maxFd) (fd startingFd : Int) :
    Except Errno (Fin maxFd) × Table Io maxFd :=
  if startingFd < 0 then (.error .EINVAL, table)
  else
    match fdToIo table fd with
    | none => (.error .EBADF, table)
    | some ptr => orEmfile table (firstFd (Slot.trySet ptr) table (fdsFrom maxFd startingFd))

/-- `fdio_bind_to_fd`. -/
def fdioBindToFd (table : Table Io maxFd) (ptr : Io) (fd startingFd : Int) :
    Except Errno (Fin maxFd) × Table Io maxFd :=
  if (fd < 0 ∧ startingFd < 0) ∨ (maxFd : Int) ≤ fd then (.error .EINVAL, table)
  else
    match slotLocked maxFd fd with
    | none => orEmfile table (firstFd (Slot.trySet ptr) table (fdsFrom maxFd startingFd))
    | some slot => (.ok slot, Function.update table slot ((table slot).replace ptr).2)

end FuchsiaSdk.FdTable
