import FuchsiaSdk.CleanPath
import Mathlib.Logic.Function.Basic

/-! The connections of `component::OutgoingDirectory`
(`component/outgoing/cpp/outgoing_directory.{h,cc}`): the handler of a protocol that was added
with its server object records for every connection how to unbind it. The record has the name
of the protocol, and not the directory that it was added to. -/
namespace FuchsiaSdk.OutgoingConnections
open CleanPath

inductive Status where
  | ok
  | invalidArgs
  | notFound
  | alreadyExists
  deriving DecidableEq, Repr

/-- `OutgoingDirectory::Inner`. The connections are numbered; each was made through an entry,
a directory and a name. -/
structure Inner where
  registeredHandlers : Bytes × Bytes → Bool := fun _ => false
  unbindProtocolCallbacks : Bytes → List Nat := fun _ => []
  connections : Nat := 0
  through : Nat → Bytes × Bytes := fun _ => ([], [])
  bound : Nat → Bool := fun _ => false

/-- What happens to server objects while a call is made. -/
inductive Event where
  | unbind (connection : Nat)
  | destroy (directory name : Bytes)
  deriving DecidableEq, Repr

namespace Inner

/-- `AddProtocolAt` with a server object; `added` is what `svc_directory_add_service` returns. -/
def addProtocolAt (inner : Inner) (path name : Bytes) (added : Status) : Status × Inner :=
  if path = [] ∨ name = [] then (.invalidArgs, inner)
  else if inner.registeredHandlers (path, name) then (.alreadyExists, inner)
  else if added ≠ .ok then (added, inner)
  else (.ok, { inner with
    registeredHandlers := Function.update inner.registeredHandlers (path, name) true })

/-- The handler of an entry: `BindServer` and `AppendUnbindConnectionCallback`. -/
def connect (inner : Inner) (path name : Bytes) : Inner :=
  if inner.registeredHandlers (path, name) then
    { inner with
      connections := inner.connections + 1
      through := Function.update inner.through inner.connections (path, name)
      bound := Function.update inner.bound inner.connections true
      unbindProtocolCallbacks := Function.update inner.unbindProtocolCallbacks name
        (inner.unbindProtocolCallbacks name ++ [inner.connections]) }
  else inner

/-- Connections that are bound no more. -/
def unbind (inner : Inner) (ended : List Nat) : Inner :=
  { inner with bound := fun connection => inner.bound connection && connection ∉ ended }

/-- `RemoveProtocolAt`; `removed` is what `svc_directory_remove_entry` returns. -/
def removeProtocolAt (inner : Inner) (directory name : Bytes) (removed : Status) :
    Status × List Event × Inner :=
  if !inner.registeredHandlers (directory, name) then (.notFound, [], inner)
  else if removed ≠ .ok then (removed, [], inner)
  else
    -- `UnbindAllConnections`, and then the handler goes with its server object
    let callbacks := inner.unbindProtocolCallbacks name
    (.ok, callbacks.map .unbind ++ [.destroy directory name], { inner.unbind callbacks with
        unbindProtocolCallbacks := Function.update inner.unbindProtocolCallbacks name []
        registeredHandlers := Function.update inner.registeredHandlers (directory, name) false })

end Inner

/-- A call, a connection through an entry, or a connection that ends by itself. -/
inductive Action where
  | addProtocolAt (path name : Bytes) (added : Status)
  | connect (path name : Bytes)
  | close (connection : Nat)
  | removeProtocolAt (directory name : Bytes) (removed : Status)

def Inner.step (inner : Inner) : Action → Inner
  | .addProtocolAt path name added => (inner.addProtocolAt path name added).2
  | .connect path name => inner.connect path name
  | .close connection => inner.unbind [connection]
  | .removeProtocolAt directory name removed => (inner.removeProtocolAt directory name removed).2.2

/-- A history from the new object on. -/
def run (history : List Action) : Inner := history.foldl Inner.step {}

/-! ## What is recorded -/

/-- Every connection that is bound is recorded under its name, and what is recorded there
was made under it. -/
structure Recorded (inner : Inner) : Prop where
  bound : ∀ connection, inner.bound connection →
    connection ∈ inner.unbindProtocolCallbacks (inner.through connection).2
  named : ∀ name, ∀ connection ∈ inner.unbindProtocolCallbacks name,
    connection < inner.connections ∧ (inner.through connection).2 = name

section Records

variable {inner : Inner} (recorded : Recorded inner)
include recorded

lemma Recorded.connect (path name : Bytes) : Recorded (inner.connect path name) := by
  unfold Inner.connect
  split
  · refine ⟨fun connection bound => ?_, fun other connection mem => ?_⟩
    · by_cases new : connection = inner.connections
      · simp [new]
      have before := recorded.bound connection (by simpa [new] using bound)
      by_cases same : (inner.through connection).2 = name
      · subst same
        simp [new, before]
      · simpa [new, same] using before
    · have known : connection ∈ inner.unbindProtocolCallbacks other →
          connection < inner.connections + 1 ∧
            (Function.update inner.through inner.connections (path, name) connection).2 = other := by
        intro old
        obtain ⟨less, named⟩ := recorded.named other connection old
        exact ⟨by omega, by simpa [Nat.ne_of_lt less] using named⟩
      by_cases same : other = name
      · subst same
        simp only [Function.update_self, List.mem_append, List.mem_singleton] at mem
        rcases mem with old | rfl
        · exact known old
        · simp
      · exact known (by simpa [same] using mem)
  · exact recorded

lemma Recorded.unbind (ended : List Nat) : Recorded (inner.unbind ended) := by
  refine ⟨fun connection bound => ?_, recorded.named⟩
  exact recorded.bound connection (Bool.and_eq_true_iff.mp bound).1

/-- The record of a name may go when its connections are unbound. -/
lemma Recorded.remove (directory name : Bytes) (removed : Status) :
    Recorded (inner.removeProtocolAt directory name removed).2.2 := by
  unfold Inner.removeProtocolAt
  split
  · exact recorded
  split
  · exact recorded
  refine ⟨fun connection bound => ?_, fun other connection mem => ?_⟩
  · obtain ⟨bound, kept⟩ := Bool.and_eq_true_iff.mp bound
    have before := recorded.bound connection bound
    have other : (inner.through connection).2 ≠ name := fun same =>
      of_decide_eq_true kept (same ▸ before)
    simpa [Inner.unbind, other] using before
  · by_cases same : other = name
    · subst same
      simp at mem
    · exact recorded.named other connection (by simpa [same] using mem)

lemma Recorded.step (action : Action) : Recorded (inner.step action) := by
  cases action with
  | addProtocolAt path name =>
    simp only [Inner.step, Inner.addProtocolAt]
    split_ifs
    · exact recorded
    · exact recorded
    · exact recorded
    · exact ⟨recorded.bound, recorded.named⟩
  | connect path name => exact recorded.connect path name
  | close connection => exact recorded.unbind [connection]
  | removeProtocolAt directory name removed => exact recorded.remove directory name removed

end Records

lemma run_recorded (history : List Action) : Recorded (run history) := by
  suffices every : ∀ inner, Recorded inner → Recorded (history.foldl Inner.step inner) from
    every {} ⟨nofun, nofun⟩
  induction history with
  | nil => exact fun _ recorded => recorded
  | cons action _ ih => exact fun _ recorded => ih _ (recorded.step action)

/-- After any history, a removal that succeeds unbinds the connections of its entry before the
server object is destroyed; it spares the others exactly if none of the same name is bound. -/
theorem removeProtocolAt_unbinds_iff (history : List Action) (directory name : Bytes) (removed : Status)
    (success : ((run history).removeProtocolAt directory name removed).1 = .ok) :
    ∃ unbound : List Nat, ((run history).removeProtocolAt directory name removed).2.1 =
        unbound.map .unbind ++ [.destroy directory name] ∧
      (∀ connection, (run history).bound connection →
        (run history).through connection = (directory, name) → connection ∈ unbound) ∧
      ((∀ connection ∈ unbound, (run history).bound connection →
          (run history).through connection = (directory, name)) ↔
        ∀ connection, (run history).bound connection → ((run history).through connection).2 = name →
          ((run history).through connection).1 = directory) := by
  have recorded := run_recorded history
  unfold Inner.removeProtocolAt at success ⊢
  split at success
  · cases success
  split at success
  next failed => exact absurd success failed
  rename_i found done
  rw [if_neg found, if_neg done]
  refine ⟨_, rfl, fun connection bound own => ?_, fun spared connection bound same => ?_,
    fun apart connection member bound => ?_⟩
  · have before := recorded.bound connection bound
    rwa [own] at before
  · have before := recorded.bound connection bound
    rw [spared connection (same ▸ before) bound]
  · have same := (recorded.named name connection member).2
    exact Prod.ext (apart connection bound same) same

/-- Two directories have a protocol of one name; the connection through the second is unbound
when the first is removed. -/
def namesakes : List Action :=
  [.addProtocolAt [1] [3] .ok, .addProtocolAt [2] [3] .ok, .connect [2] [3]]

theorem removal_unbinds_namesake :
    ((run namesakes).removeProtocolAt [1] [3] .ok).1 = .ok ∧
      ((run namesakes).removeProtocolAt [1] [3] .ok).2.1 = [.unbind 0, .destroy [1] [3]] ∧
      (run namesakes).bound 0 ∧ (run namesakes).through 0 = ([2], [3]) := by
  decide

theorem removal_spares_others :
    ∃ unbound : List Nat, ((run namesakes).removeProtocolAt [2] [3] .ok).2.1 =
        unbound.map .unbind ++ [.destroy [2] [3]] ∧ 0 ∈ unbound := by
  obtain ⟨unbound, events, own, -⟩ := removeProtocolAt_unbinds_iff namesakes [2] [3] .ok (by decide)
  exact ⟨unbound, events, own 0 (by decide) (by decide)⟩

end FuchsiaSdk.OutgoingConnections
