import FuchsiaSdk.Machine
import Mathlib.Logic.Equiv.Basic

/-! Completers of two-way calls (`fidl/cpp/wire/transaction.cc` and `transaction.h`) over the
transactions of an async binding (`fidl/cpp/wire/async_transaction.cc`). A completer holds a
transaction, owns it or borrows it, and remembers whether a reply is still due; all three
move with it. A call is one transaction, also after `TakeOwnership` has moved it from the
stack to the heap. -/
namespace FuchsiaSdk.Completers
open Option

/-- A transaction of a two-way call, with what has been done to it. It is a
`SyncTransaction` until `TakeOwnership` makes an `AsyncTransaction` of it. -/
structure Transaction where
  /-- `txid_` is not zero. -/
  hasTxid : Bool := true
  onHeap : Bool := false
  /-- `binding_` of a `SyncTransaction` is not null. -/
  hasBinding : Bool := true
  /-- The number of calls of `Reply`. -/
  replies : Nat := 0
  /-- A reply was written successfully. -/
  written : Bool := false
  closed : Bool := false
  /-- It was given `InternalError` for a reply that could not be sent. -/
  failed : Bool := false
  /-- It was given `InternalError` as an abandoned reply. -/
  abandoned : Bool := false
  /-- The assertion of a sync completer has fired on it. -/
  asserted : Bool := false
  /-- It was let go while its binding was unbound or about to unbind. -/
  excused : Bool := false
  deriving DecidableEq, Repr

/-- `InternalError` for a reply that could not be sent. -/
def Transaction.internalError (txn : Transaction) : Transaction :=
  { txn with failed := true, hasBinding := txn.onHeap && txn.hasBinding }

/-- `Reply`, and whether one of its assertions fails. -/
def Transaction.reply (txn : Transaction) (written : Bool) : Transaction × Bool :=
  let txn := { txn with replies := txn.replies + 1 }
  if !txn.hasTxid then (txn, true)
  else
    let txn := { txn with hasTxid := false }
    if !txn.onHeap && !txn.hasBinding then (txn, true)
    else if written then ({ txn with written := true }, false)
    else (txn.internalError, false)

/-- `CompleterBase`, and whether it is an `Async` or a `Sync` completer. -/
structure Completer where
  transaction : Option Nat := none
  owned : Bool := false
  needsToReply : Bool := false
  isAsync : Bool
  deriving DecidableEq, Repr

structure State where
  /-- The completers that exist, by address. -/
  completers : Nat → Option Completer := fun _ => none
  transactions : Nat → Transaction := fun _ => {}
  calls : Nat := 0
  /-- Whether the binding of a transaction is unbound or about to unbind. -/
  unbinding : Nat → Bool := fun _ => false
  /-- An assertion has failed. -/
  aborted : Bool := false

inductive Label where
  /-- A two-way call is dispatched with a new `Sync` completer. -/
  | receive (slot : Nat)
  | unbind (call : Nat)
  /-- `SendReply`, with the outcomes of encoding and writing. -/
  | sendReply (slot : Nat) (encoded written : Bool)
  | close (slot : Nat)
  | toAsync (slot target : Nat)
  | moveConstruct (target source : Nat)
  | moveAssign (target source : Nat)
  | destroy (slot : Nat)
  deriving DecidableEq, Repr

namespace State

def put (st : State) (slot : Nat) (completer : Option Completer) : State :=
  { st with completers := Function.update st.completers slot completer }

def note (st : State) (call : Nat) (change : Transaction → Transaction) : State :=
  { st with transactions := Function.update st.transactions call (change (st.transactions call)) }

def abort (st : State) : State := { st with aborted := true }

/-- The transaction of a completer is dropped and no other completer takes it over. -/
def letGo (st : State) (completer : Completer) : State :=
  match completer.transaction with
  | none => st
  | some call => st.note call fun txn =>
      { txn with excused := txn.excused || st.unbinding call }

end State

/-- The fields that `DropTransaction` and a move from a completer leave. -/
def Completer.emptied (completer : Completer) : Completer := { isAsync := completer.isAsync }

/-- `SendReply`. -/
def sendReply (st : State) (slot : Nat) (completer : Completer) (encoded written : Bool) : State :=
  match completer.transaction with
  | none => st.abort
  | some call =>
    if !completer.needsToReply then st.abort
    else
      let st := st.put slot (some { completer with needsToReply := false })
      if !encoded then st.note call Transaction.internalError
      else
        let replied := (st.transactions call).reply written
        { st.note call fun _ => replied.1 with aborted := st.aborted || replied.2 }

/-- `Close`. -/
def close (st : State) (slot : Nat) (completer : Completer) : State :=
  match completer.transaction with
  | none => st.abort
  | some call =>
    (st.note call fun txn =>
      { txn with closed := true, hasBinding := txn.onHeap && txn.hasBinding }).put
      slot (some completer.emptied)

/-- `Completer::Sync::ToAsync`. -/
def toAsync (st : State) (slot target : Nat) (completer : Completer) : State :=
  match completer.transaction with
  | none => st.abort
  | some call =>
    if !(st.transactions call).hasBinding then st.abort
    else
      ((st.note call fun txn => { txn with onHeap := true }).put
        slot (some completer.emptied)).put
        target (some { transaction := some call, owned := true, needsToReply := true, isAsync := true })

/-- `is_reply_needed`, which asks the transaction only if a reply is due. -/
def isReplyNeeded (st : State) (completer : Completer) : Bool :=
  match completer.transaction with
  | none => false
  | some call => completer.needsToReply && !st.unbinding call

/-- The destructor. -/
def destroy (st : State) (slot : Nat) (completer : Completer) : State :=
  match completer.transaction with
  | none => st.put slot none
  | some call =>
    let txn := st.transactions call
    if completer.needsToReply && !txn.onHeap && !txn.hasBinding then
      -- `DidOrGoingToUnbind` of a `SyncTransaction` asserts that there is a binding
      st.abort
    else if isReplyNeeded st completer then
      if completer.owned then
        ((st.note call fun txn =>
          { txn with abandoned := true }).letGo completer).put slot none
      else (st.note call fun txn => { txn with asserted := true }).abort
    else (st.letGo completer).put slot none

def step (st : State) (label : Label) : Option State :=
  if st.aborted then none
  else
    match label with
    | .receive slot =>
      if (st.completers slot).isSome then none
      else
        some { st.put slot (some { transaction := some st.calls, needsToReply := true, isAsync := false })
          with transactions := Function.update st.transactions st.calls {}, calls := st.calls + 1 }
    | .unbind call => some { st with unbinding := Function.update st.unbinding call true }
    | .sendReply slot encoded written =>
      (st.completers slot).map fun completer => sendReply st slot completer encoded written
    | .close slot => (st.completers slot).map fun completer => close st slot completer
    | .toAsync slot target =>
      (st.completers slot).bind fun completer =>
        if completer.isAsync || (st.completers target).isSome then none
        else some (toAsync st slot target completer)
    | .moveConstruct target source =>
      (st.completers source).bind fun completer =>
        if !completer.isAsync || (st.completers target).isSome then none
        else some ((st.put target (some completer)).put source (some completer.emptied))
    | .moveAssign target source =>
      (st.completers target).bind fun old =>
        (st.completers source).bind fun completer =>
          if !old.isAsync || !completer.isAsync then none
          else if target = source then some st
          else some (((st.letGo old).put target (some completer)).put source (some completer.emptied))
    | .destroy slot => (st.completers slot).map fun completer => destroy st slot completer

/-! ## What is asked of completers -/

/-- Replied to, closed or given an error, or the process has stopped at the assertion. -/
def Answered (txn : Transaction) : Prop :=
  txn.written = true ∨ txn.closed = true ∨ txn.failed = true ∨
    txn.abandoned = true ∨ txn.asserted = true

def Held (st : State) (call : Nat) : Prop :=
  ∃ slot completer, st.completers slot = some completer ∧ completer.transaction = some call

/-- One call: `Reply` at most once, no silent drop, no abandonment after a reply. -/
structure Fine (st : State) (call : Nat) : Prop where
  once : (st.transactions call).replies ≤ 1
  kept : call < st.calls → ¬ Held st call →
    Answered (st.transactions call) ∨ (st.transactions call).excused = true
  faithful : (st.transactions call).written = true → (st.transactions call).abandoned = false

def Good (st : State) : Prop := ∀ call, Fine st call

/-- A step that overwrites no completer whose call is unanswered and bound, sends no second
reply and destroys no completer that has forgotten a reply. -/
def Harmless (st : State) (label : Label) : Prop :=
  match label with
  | .moveAssign target source => target ≠ source → ∀ completer call,
      st.completers target = some completer → completer.transaction = some call →
      Answered (st.transactions call) ∨ st.unbinding call = true
  | .sendReply slot encoded _ => ∀ completer call,
      st.completers slot = some completer → completer.transaction = some call →
      completer.needsToReply = true → encoded = true → (st.transactions call).replies = 0
  | .destroy slot => ∀ completer call,
      st.completers slot = some completer → completer.transaction = some call →
      completer.owned = true → isReplyNeeded st completer = true →
      (st.transactions call).written = false
  | _ => True

/-! ## The invariant -/

section Invariant

variable {st next : State} {label : Label}

/-- What holds of the completers and transactions while no assertion has failed. -/
structure Inv (st : State) : Prop where
  single : ∀ slot other completer completer' call,
    st.completers slot = some completer → completer.transaction = some call →
    st.completers other = some completer' → completer'.transaction = some call → slot = other
  known : ∀ slot completer call, st.completers slot = some completer →
    completer.transaction = some call → call < st.calls
  settled : ∀ slot completer call, st.completers slot = some completer →
    completer.transaction = some call → completer.needsToReply = false → Answered (st.transactions call)
  pending : ∀ slot completer call, st.completers slot = some completer →
    completer.transaction = some call →
    (st.transactions call).abandoned = false ∧ (st.transactions call).excused = false
  heaped : ∀ slot completer call, st.completers slot = some completer →
    completer.transaction = some call → completer.owned = true → (st.transactions call).onHeap = true
  fresh : ∀ call, st.calls ≤ call → st.transactions call = {}

@[simp] lemma put_completers :
    (st.put slot completer).completers other = if other = slot then completer else st.completers other :=
  Function.update_apply ..

@[simp] lemma put_transactions :
    (st.put slot completer).transactions = st.transactions := rfl

@[simp] lemma put_calls :
    (st.put slot completer).calls = st.calls := rfl

@[simp] lemma note_transactions :
    (st.note call change).transactions other =
      if other = call then change (st.transactions call) else st.transactions other :=
  Function.update_apply ..

@[simp] lemma note_completers :
    (st.note call change).completers = st.completers := rfl

@[simp] lemma note_calls :
    (st.note call change).calls = st.calls := rfl

@[simp] lemma letGo_completers :
    (st.letGo completer).completers = st.completers := by
  unfold State.letGo
  split <;> rfl

@[simp] lemma letGo_calls : (st.letGo completer).calls = st.calls := by
  unfold State.letGo
  split <;> rfl

lemma letGo_transactions (different : completer.transaction ≠ some other) :
    (st.letGo completer).transactions other = st.transactions other := by
  unfold State.letGo
  split
  · rfl
  rename_i call holds
  have apart : other ≠ call := by
    rintro rfl
    exact different holds
  rw [note_transactions, if_neg apart]

lemma letGo_record (holds : completer.transaction = some call) : (st.letGo completer).transactions call =
      { st.transactions call with excused := (st.transactions call).excused || st.unbinding call } := by
  rw [State.letGo, holds]
  exact (note_transactions ..).trans (if_pos rfl)

/-- The completers that are left, or have taken over what another one held, hold the
transactions as they were. -/
lemma Inv.of_holders (inv : Inv st) (calls : next.calls = st.calls)
    (fresh : ∀ call, st.calls ≤ call → next.transactions call = st.transactions call)
    (origin : Nat → Nat) (holders : ∀ slot completer call, next.completers slot = some completer →
      completer.transaction = some call → st.completers (origin slot) = some completer ∧
        next.transactions call = st.transactions call)
    (single : ∀ slot other completer call, next.completers slot = some completer →
      completer.transaction = some call → next.completers other = some completer →
      origin slot = origin other → slot = other) : Inv next where
  single slot other completer completer' call found holds found' holds' := by
    have here := (holders slot completer call found holds).1
    have there := (holders other completer' call found' holds').1
    have same := inv.single _ _ _ _ call here holds there holds'
    rw [same, there] at here
    cases here
    exact single slot other completer call found holds found' same
  known slot completer call found holds := by
    rw [calls]
    exact inv.known _ completer call (holders slot completer call found holds).1 holds
  settled slot completer call found holds idle := by
    obtain ⟨here, record⟩ := holders slot completer call found holds
    rw [record]
    exact inv.settled _ completer call here holds idle
  pending slot completer call found holds := by
    obtain ⟨here, record⟩ := holders slot completer call found holds
    rw [record]
    exact inv.pending _ completer call here holds
  heaped slot completer call found holds owned := by
    obtain ⟨here, record⟩ := holders slot completer call found holds
    rw [record]
    exact inv.heaped _ completer call here holds owned
  fresh call beyond := by
    rw [calls] at beyond
    rw [fresh call beyond, inv.fresh call beyond]

/-- A completer goes, or stays with nothing in it, and with it the hold on its transaction. -/
structure Gone (st next : State) (slot : Nat) (completer : Completer) : Prop where
  calls : next.calls = st.calls
  records : ∀ call, completer.transaction ≠ some call → next.transactions call = st.transactions call
  elsewhere : ∀ other, other ≠ slot → next.completers other = st.completers other
  empty : ∀ left, next.completers slot = some left → left.transaction = none

lemma gone_put {left : Option Completer} (empty : ∀ kept, left = some kept → kept.transaction = none) :
    Gone st (st.put slot left) slot completer where
  calls := rfl
  records _ _ := rfl
  elsewhere _ apart := (put_completers ..).trans (if_neg apart)
  empty kept here := empty kept (((put_completers ..).trans (if_pos rfl)).symm.trans here)

lemma Gone.letGo (gone : Gone (st.letGo completer) next slot completer) :
    Gone st next slot completer where
  calls := gone.calls.trans (letGo_calls)
  records call different := (gone.records call different).trans (letGo_transactions different)
  elsewhere other apart := by rw [gone.elsewhere other apart, letGo_completers]
  empty := gone.empty

lemma Gone.note (holds : completer.transaction = some call)
    (gone : Gone (st.note call change) next slot completer) : Gone st next slot completer where
  calls := gone.calls
  records other different := by
    have apart : other ≠ call := by
      rintro rfl
      exact different holds
    rw [gone.records other different, note_transactions, if_neg apart]
  elsewhere := gone.elsewhere
  empty := gone.empty

lemma Inv.remove (inv : Inv st) (found : st.completers slot = some completer)
    (gone : Gone st next slot completer) : Inv next := by
  refine inv.of_holders gone.calls (fun call beyond => gone.records call fun holds => ?_) id ?_
    fun _ _ _ _ _ _ _ same => same
  · exact absurd (inv.known slot completer call found holds) (Nat.not_lt.mpr beyond)
  · intro other completer' call here holds
    by_cases same : other = slot
    · subst same
      cases (gone.empty completer' here).symm.trans holds
    · rw [gone.elsewhere other same] at here
      exact ⟨here, gone.records call fun holds' =>
        same (inv.single _ _ _ _ call here holds found holds')⟩

/-- A completer moves onto another one, or onto a free address. -/
lemma Inv.move (inv : Inv st) (target : Nat)
    (found : st.completers source = some completer) (calls : next.calls = st.calls)
    (records : ∀ call, (∀ old, st.completers target = some old → old.transaction ≠ some call) →
      next.transactions call = st.transactions call)
    (completers : ∀ other, next.completers other = if other = source then some completer.emptied
      else if other = target then some completer else st.completers other) : Inv next := by
  have origin : ∀ slot completer' call, next.completers slot = some completer' →
      completer'.transaction = some call → slot ≠ source ∧
        st.completers (if slot = target then source else slot) = some completer' ∧
        (if slot = target then source else slot) ≠ target := by
    intro slot completer' call here holds
    rw [completers] at here
    split at here
    · cases here
      cases holds
    rename_i notSource
    split at here
    next onto =>
      cases here
      rw [if_pos onto]
      exact ⟨notSource, found, fun same => notSource (onto.trans same.symm)⟩
    next elsewhere =>
      rw [if_neg elsewhere]
      exact ⟨notSource, here, elsewhere⟩
  refine inv.of_holders calls (fun call beyond => records call fun old here holds => ?_)
    (fun slot => if slot = target then source else slot) ?_ ?_
  · exact absurd (inv.known target old call here holds) (Nat.not_lt.mpr beyond)
  · intro slot completer' call here holds
    obtain ⟨-, source, elsewhere⟩ := origin slot completer' call here holds
    refine ⟨source, records call fun old target' holds' => elsewhere ?_⟩
    exact inv.single _ _ _ _ call source holds target' holds'
  · intro slot other completer' call here holds there same
    have notSource := (origin slot completer' call here holds).1
    have notSource' := (origin other completer' call there holds).1
    split at same <;> split at same <;> simp_all

end Invariant

/-! ## The calls -/

section Calls

variable {st next : State} {label : Label} {call : Nat}

/-- The call that the completer at an address holds. -/
def holding (st : State) (slot : Nat) : Option Nat := (st.completers slot).bind Completer.transaction

lemma held_iff_holding : Held st call ↔ ∃ slot, holding st slot = some call := by
  simp [Held, holding, bind_eq_some_iff]

/-- A call is untouched by a step that leaves its record and gives its holders other
addresses at most. -/
structure Same (st next : State) (call : Nat) : Prop where
  record : next.transactions call = st.transactions call
  known : call < next.calls ↔ call < st.calls
  held : Held next call ↔ Held st call

lemma held_perm (addr : Equiv.Perm Nat)
    (holders : ∀ slot, holding next slot = some call ↔ holding st (addr slot) = some call) :
    Held next call ↔ Held st call := by
  rw [held_iff_holding, held_iff_holding]
  constructor
  · rintro ⟨slot, holds⟩
    exact ⟨addr slot, (holders slot).mp holds⟩
  · rintro ⟨slot, holds⟩
    refine ⟨addr.symm slot, (holders _).mpr ?_⟩
    rwa [Equiv.apply_symm_apply]

lemma fine_iff_of_same (same : Same st next call) : Fine next call ↔ Fine st call := by
  obtain ⟨record, known, held⟩ := same
  constructor
  · rintro ⟨once, kept, faithful⟩
    rw [record] at once kept faithful
    rw [known, held] at kept
    exact ⟨once, kept, faithful⟩
  · rintro ⟨once, kept, faithful⟩
    rw [← record] at once kept faithful
    rw [← known, ← held] at kept
    exact ⟨once, kept, faithful⟩

lemma good_iff_of_same (others : ∀ call, Same st next call) (holds : harmless) :
    Good next ↔ Good st ∧ harmless := by
  rw [and_iff_left holds]
  exact forall_congr' fun call => fine_iff_of_same (others call)

lemma good_iff_of_touched (touched : Nat) (others : ∀ call, call ≠ touched → Same st next call)
    (here : Fine next touched ↔ Fine st touched ∧ harmless) : Good next ↔ Good st ∧ harmless := by
  constructor
  · intro good
    refine ⟨fun call => ?_, (here.mp (good touched)).2⟩
    by_cases same : call = touched
    · subst same
      exact (here.mp (good call)).1
    · exact (fine_iff_of_same (others call same)).mp (good call)
  · rintro ⟨good, harmless⟩ call
    by_cases same : call = touched
    · subst same
      exact here.mpr ⟨good call, harmless⟩
    · exact (fine_iff_of_same (others call same)).mpr (good call)

/-- A call that a completer holds and that has not been abandoned. -/
lemma fine_iff_of_held (held : Held st call) (pending : (st.transactions call).abandoned = false) :
    Fine st call ↔ (st.transactions call).replies ≤ 1 :=
  ⟨Fine.once, fun once => ⟨once, fun _ free => absurd held free, fun _ => pending⟩⟩

/-- A call that no completer holds any more. -/
lemma fine_iff_of_let_go (known : call < st.calls) (free : ¬ Held st call) :
    Fine st call ↔ (st.transactions call).replies ≤ 1 ∧
      (Answered (st.transactions call) ∨ (st.transactions call).excused = true) ∧
      ((st.transactions call).written = true → (st.transactions call).abandoned = false) :=
  ⟨fun fine => ⟨fine.once, fine.kept known free, fine.faithful⟩,
    fun fine => ⟨fine.1, fun _ _ => fine.2.1, fine.2.2⟩⟩

/-- The completer at an address goes or changes, and no other one. -/
lemma held_of_elsewhere (slot : Nat)
    (elsewhere : ∀ other, other ≠ slot → holding next other = holding st other)
    (here : holding next slot = some call ↔ holding st slot = some call) :
    Held next call ↔ Held st call := by
  refine held_perm (Equiv.refl _) fun other => ?_
  by_cases same : other = slot
  · subst same
    exact here
  · rw [elsewhere other same, Equiv.refl_apply]

section Holder

variable {slot : Nat} {completer : Completer} (inv : Inv st)
  (found : st.completers slot = some completer) (holds : completer.transaction = some call)

include inv found holds

omit inv in
/-- What is asked of the completer at the address. -/
lemma forall_holder_iff {asked : Completer → Nat → Prop} :
    (∀ completer' call', st.completers slot = some completer' →
      completer'.transaction = some call' → asked completer' call') ↔ asked completer call := by
  constructor
  · exact fun all => all completer call found holds
  · intro here completer' call' found' holds'
    cases found.symm.trans found'
    cases holds.symm.trans holds'
    exact here

lemma fine_iff_of_holder : Fine st call ↔ (st.transactions call).replies ≤ 1 :=
  fine_iff_of_held ⟨slot, completer, found, holds⟩ (inv.pending slot completer call found holds).1

lemma good_iff_of_gone (gone : Gone st next slot completer)
    (answers : ((next.transactions call).replies ≤ 1 ∧
      (Answered (next.transactions call) ∨ (next.transactions call).excused = true) ∧
      ((next.transactions call).written = true → (next.transactions call).abandoned = false)) ↔
        (st.transactions call).replies ≤ 1 ∧ harmless) : Good next ↔ Good st ∧ harmless := by
  have free : ∀ other, holding next slot ≠ some other := by
    intro other held
    obtain ⟨kept, here, holds'⟩ := bind_eq_some_iff.mp held
    cases (gone.empty kept here).symm.trans holds'
  refine good_iff_of_touched call (fun other different => ⟨gone.records other ?_, ?_, ?_⟩) ?_
  · exact fun holds' => different (some.inj (holds.symm.trans holds')).symm
  · rw [gone.calls]
  · refine held_of_elsewhere slot (fun slot' apart => ?_) ?_
    · rw [holding, holding, gone.elsewhere slot' apart]
    · refine iff_of_false (free other) ?_
      simp [holding, found, holds, different.symm]
  · rw [fine_iff_of_holder inv found holds, fine_iff_of_let_go]
    · exact answers
    · rw [gone.calls]
      exact inv.known slot completer call found holds
    · rintro ⟨other, holder, here, holds'⟩
      by_cases same : other = slot
      · subst same
        exact free call (bind_eq_some_iff.mpr ⟨holder, here, holds'⟩)
      · rw [gone.elsewhere other same] at here
        exact same (inv.single _ _ _ _ call here holds' found holds)

end Holder

end Calls

/-! ## Steps keep the invariant, and the calls fine exactly if they are harmless -/

section Steps

variable {st next : State} {label : Label} {slot call target source : Nat} {completer : Completer}

structure Settles (st : State) (label : Label) (next : State) : Prop where
  inv : next.aborted = true ∨ Inv next
  good : Good next ↔ Good st ∧ Harmless st label

lemma settles_abort (harmless : Harmless st label) : Settles st label st.abort :=
  ⟨.inl rfl, good_iff_of_same (fun _ => ⟨rfl, .rfl, .rfl⟩) harmless⟩

private lemma receive_settles (inv : Inv st) (free : st.completers slot = none) :
    Settles st (.receive slot)
      { st.put slot (some { transaction := some st.calls, needsToReply := true, isAsync := false })
        with transactions := Function.update st.transactions st.calls {}, calls := st.calls + 1 } where
  inv := by
    obtain ⟨single, known, settled, pending, heaped, fresh⟩ := inv
    refine .inr ⟨?_, ?_, ?_, ?_, ?_, ?_⟩ <;> simp only [put_completers, Function.update_apply] <;> grind
  good := by
    refine good_iff_of_touched st.calls (fun call different => ⟨?_, ?_, ?_⟩) ?_
    · exact Function.update_of_ne different ..
    · simp only
      omega
    · refine held_of_elsewhere slot (fun slot' apart => ?_) ?_
      · simp [holding, apart]
      · simp [holding, free, different.symm]
    · have blank := inv.fresh st.calls (Nat.le_refl _)
      refine ⟨fun _ => ⟨⟨?_, ?_, ?_⟩, trivial⟩, fun _ => ⟨?_, ?_, ?_⟩⟩
      · rw [blank]
        exact Nat.zero_le 1
      · exact fun known => absurd known (Nat.lt_irrefl _)
      · rw [blank]
        exact fun _ => rfl
      · simp
      · exact fun _ free' => absurd ⟨slot, _, (put_completers ..).trans (if_pos rfl), rfl⟩ free'
      · simp

private lemma reply_spec (txn : Transaction) :
    (txn.reply written).1.replies = txn.replies + 1 ∧
      (txn.reply written).1.excused = txn.excused ∧
      (txn.reply written).1.abandoned = txn.abandoned ∧
      (txn.reply written).1.onHeap = txn.onHeap ∧
      ((txn.reply written).2 = true ∨ Answered (txn.reply written).1) := by
  unfold Transaction.reply
  simp only
  split
  · exact ⟨rfl, rfl, rfl, rfl, .inl rfl⟩
  split
  · exact ⟨rfl, rfl, rfl, rfl, .inl rfl⟩
  split
  · exact ⟨rfl, rfl, rfl, rfl, .inr (.inl rfl)⟩
  · exact ⟨rfl, rfl, rfl, rfl, .inr (.inr (.inr (.inl rfl)))⟩

/-- What is asked of the completer at the address, if it holds no transaction. -/
lemma forall_idle {asked : Completer → Nat → Prop} (found : st.completers slot = some completer)
    (idle : completer.transaction = none) (completer' : Completer) (call' : Nat)
    (found' : st.completers slot = some completer')
    (holds' : completer'.transaction = some call') : asked completer' call' := by
  cases found.symm.trans found'
  cases idle.symm.trans holds'

section Holder

variable (inv : Inv st) (found : st.completers slot = some completer)

include inv found

lemma settles_send (holds : completer.transaction = some call) (encoded written aborted : Bool)
    (record : Transaction) (due : completer.needsToReply = true)
    (replies : record.replies = (st.transactions call).replies + if encoded then 1 else 0)
    (excused : record.excused = (st.transactions call).excused)
    (abandoned : record.abandoned = (st.transactions call).abandoned)
    (onHeap : record.onHeap = (st.transactions call).onHeap) (answered : aborted = true ∨ Answered record) :
    Settles st (.sendReply slot encoded written)
      { (st.put slot (some { completer with needsToReply := false })).note call (fun _ => record)
        with aborted := aborted } where
  inv := by
    rcases answered with stopped | answered
    · exact .inl stopped
    obtain ⟨single, known, settled, pending, heaped, fresh⟩ := inv
    refine .inr ⟨?_, ?_, ?_, ?_, ?_, ?_⟩ <;>
      simp only [note_completers, note_calls, put_completers, put_calls, put_transactions,
        note_transactions] <;>
      grind
  good := by
    refine good_iff_of_touched call (fun other different => ⟨?_, .rfl, ?_⟩) ?_
    · simp [different]
    · refine held_of_elsewhere slot (fun slot' apart => ?_) ?_
      · simp [holding, apart]
      · simp [holding, found]
    · have harmless : Harmless st (.sendReply slot encoded written) ↔
          (encoded = true → (st.transactions call).replies = 0) :=
        (forall_holder_iff found holds).trans (imp_iff_right due)
      rw [fine_iff_of_holder inv found holds, harmless, fine_iff_of_held]
      · simp only [note_transactions, if_pos]
        rw [replies]
        cases encoded <;> simp ; omega
      · exact ⟨slot, { completer with needsToReply := false }, by simp, holds⟩
      · simp [abandoned, (inv.pending slot completer call found holds).1]

private lemma sendReply_settles (running : st.aborted = false) :
    Settles st (.sendReply slot encoded written) (sendReply st slot completer encoded written) := by
  obtain ⟨completers, transactions, _, _, aborted⟩ := st
  obtain ⟨transaction, owned, needsToReply, isAsync⟩ := completer
  subst running
  cases transaction with
  | none =>
    refine settles_abort fun other call here holds => ?_
    cases found.symm.trans here
    cases holds
  | some call =>
    cases needsToReply with
    | false =>
      refine settles_abort fun other call' here holds due => ?_
      cases found.symm.trans here
      cases due
    | true =>
      cases encoded with
      | false =>
        exact settles_send inv found rfl false written false (transactions call).internalError rfl rfl
          rfl rfl rfl (.inr (.inr (.inr (.inl rfl))))
      | true =>
        obtain ⟨replies, excused, abandoned, onHeap, answered⟩ := reply_spec (transactions call)
        exact settles_send inv found rfl true written _ _ rfl replies excused abandoned onHeap answered

private lemma close_settles : Settles st (.close slot) (close st slot completer) := by
  unfold close
  split
  · exact settles_abort trivial
  next call holds =>
    have gone : Gone st ((st.note call fun txn => { txn with
        closed := true, hasBinding := txn.onHeap && txn.hasBinding }).put slot (some completer.emptied))
        slot completer := .note holds (gone_put fun _ => by rintro ⟨⟩; rfl)
    refine ⟨.inr (inv.remove found gone), good_iff_of_gone inv found holds gone ?_⟩
    simp [Answered, Harmless, (inv.pending slot completer call found holds).1]

private lemma toAsync_settles (free : st.completers target = none) :
    Settles st (.toAsync slot target) (toAsync st slot target completer) := by
  unfold toAsync
  split
  · exact settles_abort trivial
  rename_i call holds
  split
  · exact settles_abort trivial
  constructor
  · obtain ⟨single, known, settled, pending, heaped, fresh⟩ := inv
    refine .inr ⟨?_, ?_, ?_, ?_, ?_, ?_⟩ <;>
      simp only [note_completers, note_calls, put_completers, put_calls, put_transactions,
        note_transactions] <;>
      grind [Completer.emptied]
  · refine good_iff_of_touched call (fun other different => ⟨?_, .rfl, ?_⟩) ?_
    · simp [different]
    · refine held_perm (Equiv.refl _) fun slot' => ?_
      simp only [holding, note_completers, put_completers, Equiv.refl_apply]
      grind [Completer.emptied]
    · rw [fine_iff_of_holder inv found holds, fine_iff_of_held]
      · simp [Harmless]
      · exact ⟨target, _, (put_completers ..).trans (if_pos rfl), rfl⟩
      · simp [(inv.pending slot completer call found holds).1]

private lemma moveConstruct_settles (free : st.completers target = none) :
    Settles st (.moveConstruct target slot)
      ((st.put target (some completer)).put slot (some completer.emptied)) where
  inv := by
    refine .inr (inv.move target found rfl (fun _ _ => rfl) fun other => ?_)
    rw [put_completers, put_completers]
  good := by
    refine good_iff_of_same (fun call => ⟨rfl, .rfl, ?_⟩) trivial
    refine held_perm (Equiv.swap target slot) fun slot' => ?_
    simp only [holding, put_completers, Equiv.swap_apply_def]
    grind [Completer.emptied]

private lemma moveAssign_settles (found' : st.completers source = some completer') (apart : slot ≠ source) :
    Settles st (.moveAssign slot source)
      (((st.letGo completer).put slot (some completer')).put source (some completer'.emptied)) where
  inv := by
    refine .inr (inv.move slot found' ?_ (fun call free => ?_) fun other => ?_)
    · rw [put_calls, put_calls, letGo_calls]
    · exact letGo_transactions (free completer found)
    · rw [put_completers, put_completers, letGo_completers]
  good := by
    have swapped : ∀ call, completer.transaction ≠ some call → (Held (((st.letGo completer).put
        slot (some completer')).put source (some completer'.emptied)) call ↔ Held st call) := by
      intro call different
      refine held_perm (Equiv.swap slot source) fun slot' => ?_
      simp only [holding, put_completers, letGo_completers, Equiv.swap_apply_def]
      grind [Completer.emptied]
    cases holds : completer.transaction with
    | none =>
      refine good_iff_of_same (fun call => ⟨?_, ?_, swapped call (by rw [holds]; simp)⟩)
        fun _ => forall_idle found holds
      · exact letGo_transactions (by rw [holds]; simp)
      · rw [put_calls, put_calls, letGo_calls]
    | some call =>
      have harmless : Harmless st (.moveAssign slot source) ↔
          (Answered (st.transactions call) ∨ st.unbinding call = true) :=
        (imp_iff_right apart).trans (forall_holder_iff found holds)
      obtain ⟨pending, unexcused⟩ := inv.pending slot completer call found holds
      have other' : ∀ other ≠ call, completer.transaction ≠ some other := by
        intro other different
        rw [holds]
        exact fun same => different (some.inj same).symm
      refine good_iff_of_touched call (fun other different =>
        ⟨letGo_transactions (other' other different), ?_, swapped other (other' other different)⟩) ?_
      · rw [put_calls, put_calls, letGo_calls]
      · rw [fine_iff_of_holder inv found holds, harmless, fine_iff_of_let_go]
        · rw [put_transactions, put_transactions, letGo_record holds]
          simp [Answered, pending, unexcused]
        · rw [put_calls, put_calls, letGo_calls]
          exact inv.known slot completer call found holds
        · -- what `source` held is another call
          rintro ⟨other, _, here, _⟩
          rw [put_completers, put_completers, letGo_completers] at here
          have single := inv.single slot
          grind [Completer.emptied]

private lemma settles_abandon (holds : completer.transaction = some call) (owned : completer.owned = true)
    (needed : isReplyNeeded st completer = true) : Settles st (.destroy slot)
      (((st.note call fun txn => { txn with abandoned := true }).letGo completer).put slot none) := by
  have harmless : Harmless st (.destroy slot) ↔ (st.transactions call).written = false :=
    (forall_holder_iff found holds).trans ((imp_iff_right owned).trans (imp_iff_right needed))
  have gone : Gone st (((st.note call fun txn => { txn with abandoned := true }).letGo completer).put
      slot none) slot completer := .note holds (.letGo (gone_put nofun))
  refine ⟨.inr (inv.remove found gone), good_iff_of_gone inv found holds gone ?_⟩
  rw [harmless, put_transactions, letGo_record holds]
  simp [Answered]

private lemma settles_assert (holds : completer.transaction = some call) (borrowed : completer.owned = false) :
    Settles st (.destroy slot) (st.note call fun txn => { txn with asserted := true }).abort where
  inv := .inl rfl
  good := by
    have harmless : Harmless st (.destroy slot) := by
      refine (forall_holder_iff found holds).mpr fun owned => ?_
      cases borrowed.symm.trans owned
    refine good_iff_of_touched call (fun other different => ⟨?_, .rfl, .rfl⟩) ?_
    · simp [State.abort, different]
    · rw [fine_iff_of_holder inv found holds, fine_iff_of_held]
      · simp [State.abort, harmless]
      · exact ⟨slot, completer, found, holds⟩
      · simp [State.abort, (inv.pending slot completer call found holds).1]

lemma settles_destroy (done : isReplyNeeded st completer = false) :
    Settles st (.destroy slot) ((st.letGo completer).put slot none) := by
  have gone : Gone st ((st.letGo completer).put slot none) slot completer := .letGo (gone_put nofun)
  refine ⟨.inr (inv.remove found gone), ?_⟩
  cases holds : completer.transaction with
  | none =>
    rw [State.letGo, holds]
    refine good_iff_of_same (fun call => ⟨rfl, .rfl, ?_⟩) (forall_idle found holds)
    refine held_of_elsewhere slot (fun slot' elsewhere => ?_) ?_
    · simp [holding, elsewhere]
    · simp [holding, found, holds]
  | some call =>
    have harmless : Harmless st (.destroy slot) := by
      refine (forall_holder_iff found holds).mpr fun _ needed => ?_
      cases done.symm.trans needed
    have excused : Answered (st.transactions call) ∨ st.unbinding call = true := by
      rw [isReplyNeeded, holds] at done
      simp only [Bool.and_eq_false_iff, Bool.not_eq_false'] at done
      exact done.imp_left (inv.settled slot completer call found holds)
    obtain ⟨pending, unexcused⟩ := inv.pending slot completer call found holds
    refine good_iff_of_gone inv found holds gone ?_
    rw [put_transactions, letGo_record holds]
    simpa [Answered, unexcused, pending, harmless] using fun _ => excused

private lemma destroy_settles : Settles st (.destroy slot) (destroy st slot completer) := by
  unfold destroy
  cases holds : completer.transaction with
  | none =>
    have idle : isReplyNeeded st completer = false := by rw [isReplyNeeded, holds]
    have settles := settles_destroy inv found idle
    rwa [State.letGo, holds] at settles
  | some call =>
    simp only
    split
    next unbound =>
      refine settles_abort ((forall_holder_iff found holds).mpr fun owned => ?_)
      have onHeap := inv.heaped slot completer call found holds owned
      simp [onHeap] at unbound
    · split
      next needed =>
        split
        next owned => exact settles_abandon inv found holds owned needed
        next borrowed => exact settles_assert inv found holds (by simpa using borrowed)
      next idle => exact settles_destroy inv found (by simpa using idle)

end Holder

lemma free_of_allowed {wrong : Bool} (allowed : ¬ (wrong || (st.completers target).isSome) = true) :
    st.completers target = none := by
  simp only [Bool.or_eq_true, not_or] at allowed
  simpa using allowed.2

lemma step_settles (inv : Inv st) (moved : step st label = some next) : Settles st label next := by
  unfold step at moved
  split at moved
  · cases moved
  rename_i alive
  cases label with
  | receive slot =>
    simp only at moved
    split at moved <;> cases moved
    rename_i free
    exact receive_settles inv (by simpa using free)
  | unbind call =>
    obtain ⟨single, known, settled, pending, heaped, fresh⟩ := inv
    cases moved
    exact ⟨.inr ⟨single, known, settled, pending, heaped, fresh⟩,
      good_iff_of_same (fun call => ⟨rfl, .rfl, .rfl⟩) trivial⟩
  | sendReply slot =>
    obtain ⟨completer, found, rfl⟩ := map_eq_some_iff.mp moved
    exact sendReply_settles inv found (by simpa using alive)
  | close slot =>
    obtain ⟨completer, found, rfl⟩ := map_eq_some_iff.mp moved
    exact close_settles inv found
  | toAsync slot target =>
    obtain ⟨completer, found, moved⟩ := bind_eq_some_iff.mp moved
    split at moved <;> cases moved
    rename_i allowed
    exact toAsync_settles inv found (free_of_allowed allowed)
  | moveConstruct target source =>
    obtain ⟨completer, found, moved⟩ := bind_eq_some_iff.mp moved
    split at moved <;> cases moved
    rename_i allowed
    exact moveConstruct_settles inv found (free_of_allowed allowed)
  | moveAssign target source =>
    obtain ⟨old, here, moved⟩ := bind_eq_some_iff.mp moved
    obtain ⟨completer, found, moved⟩ := bind_eq_some_iff.mp moved
    split at moved
    · cases moved
    split at moved
    next same =>
      cases moved
      exact ⟨.inr inv, good_iff_of_same (fun call => ⟨rfl, .rfl, .rfl⟩) fun apart => absurd same apart⟩
    next apart =>
      cases moved
      exact moveAssign_settles inv here found apart
  | destroy slot =>
    obtain ⟨completer, found, rfl⟩ := map_eq_some_iff.mp moved
    exact destroy_settles inv found

end Steps

/-! ## Whole histories -/

lemma inv_start : Inv {} where
  single _ _ _ _ _ found := by cases found
  known _ _ _ found := by cases found
  settled _ _ _ found := by cases found
  pending _ _ _ found := by cases found
  heaped _ _ _ found := by cases found
  fresh _ _ := rfl

private lemma good_start : Good {} := fun call =>
  ⟨Nat.zero_le 1, fun known => absurd known (Nat.not_lt_zero call), fun _ => rfl⟩

lemma not_step_of_aborted (stopped : st.aborted = true) : step st label ≠ some next := by
  unfold step
  rw [if_pos stopped]
  exact some_ne_none next ∘ Eq.symm

/-- Over every history of completers, every call is replied to at most once, not dropped
without an answer and not abandoned after a reply, exactly if every step is harmless. -/
theorem calls_answered_iff (labels : List Label) (final : State)
    (ran : Machine.run step {} labels = some final) :
    Good final ↔ Machine.Admissible step Harmless {} labels := by
  have settled : Good final ↔ Good {} ∧ Machine.Admissible step Harmless {} labels := by
    refine @Machine.run_iff_admissible _ _ step (fun st => st.aborted = true ∨ Inv st)
      Harmless {} final labels Good ?_ ?_ (.inr inv_start) ran
    · rintro st label next (stopped | inv) stepped
      · exact absurd stepped (not_step_of_aborted stopped)
      · exact (step_settles inv stepped).inv
    · rintro st label next (stopped | inv) stepped
      · exact absurd stepped (not_step_of_aborted stopped)
      · exact (step_settles inv stepped).good
  rw [settled]
  exact and_iff_right good_start

/-- A call is answered later, through a completer made by `ToAsync`. -/
theorem calls_answered_later : ∃ final,
    Machine.run step {} [.receive 0, .toAsync 0 1, .destroy 0, .sendReply 1 true true, .destroy 1] =
      some final ∧ Good final := by
  refine ⟨_, rfl, (calls_answered_iff
    [.receive 0, .toAsync 0 1, .destroy 0, .sendReply 1 true true, .destroy 1] _ rfl).mpr ?_⟩
  rintro _ ⟨⟩
  refine ⟨trivial, ?_⟩
  rintro _ ⟨⟩
  refine ⟨trivial, ?_⟩
  rintro _ ⟨⟩
  refine ⟨?_, ?_⟩
  · rintro _ _ ⟨⟩ ⟨⟩
  rintro _ ⟨⟩
  refine ⟨?_, ?_⟩
  · rintro _ _ ⟨⟩ ⟨⟩ _ _
    rfl
  rintro _ ⟨⟩
  refine ⟨?_, trivial⟩
  rintro _ _ ⟨⟩ ⟨⟩ _ ⟨⟩

/-- An `Async` completer with a reply due is overwritten by another one, and its call is lost
without an answer. A call that was replied to and then made async is abandoned. -/
theorem call_dropped_by_move :
    (∃ final, Machine.run step {}
        [.receive 0, .toAsync 0 1, .receive 2, .toAsync 2 3, .moveAssign 1 3] = some final ∧
      0 < final.calls ∧ ¬ Held final 0 ∧ ¬ Answered (final.transactions 0) ∧
      (final.transactions 0).excused = false) ∧
    ∃ final, Machine.run step {} [.receive 0, .sendReply 0 true true, .toAsync 0 1, .destroy 1] = some final ∧
      (final.transactions 0).written = true ∧ (final.transactions 0).abandoned = true := by
  refine ⟨⟨_, rfl, by decide, ?_, ?_, rfl⟩, _, rfl, rfl, rfl⟩
  · rintro ⟨slot, _, found, holds⟩
    match slot with
    | 0 | 2 | 3 =>
      cases found
      cases holds
    | 1 =>
      cases found
      cases holds
    | slot + 4 => cases found
  · unfold Answered
    decide

end FuchsiaSdk.Completers
