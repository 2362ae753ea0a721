import FuchsiaSdk.Machine

/-! Two-way calls of the asynchronous FIDL client (`client_base.cc`, and
`AsyncClientBinding::FinishTeardown` in `async_binding.cc`). One step is one
section under `lock_`, one outcome of the transport or the dispatcher, or one
notification of a response context. Each call of `SendTwoWay` brings its own
context, so contexts are named by the order in which the calls began.

The tree `contexts_` is the list of its nodes with their keys, in the order of
insertion. -/
namespace FuchsiaSdk.ClientBase
open Machine List Option

abbrev ContextId : Type := Nat

/-- Where a call of `SendTwoWay` stands. -/
inductive Phase where
  /-- It holds the transport and has not registered its context. -/
  | holding
  /-- `PrepareAsyncTxn` returned; the message is not written yet. -/
  | registered
  | writeFailed
  /-- `TryAsyncDeliverError` is next. -/
  | delivering
  /-- `SendTwoWay` returned and the dispatcher holds the error task. -/
  | errorPosted
  | returned
  deriving DecidableEq, Repr

structure State where
  txidBase : Nat := 0
  contexts : List (Nat × ContextId) := []
  deleteList : List ContextId := []
  /-- `GetTransportOrError` still finds a binding with a transport. -/
  bound : Bool := true
  /-- The locked section of `ReleaseResponseContexts` has run. -/
  released : Bool := false
  calls : List Phase := []
  /-- Contexts taken out under the lock and not yet notified. -/
  owed : List ContextId := []
  /-- The `ZX_ASSERT` of `ForgetAsyncTxn` fired. -/
  aborted : Bool := false
  -- History: every notification so far.
  notified : List ContextId := []
  deriving DecidableEq, Repr

inductive Label where
  /-- `SendTwoWay` begins and asks for the transport. -/
  | sendTwoWay
  | prepareAsyncTxn (ctx : ContextId)
  | write (ctx : ContextId) (ok : Bool)
  | forgetAsyncTxn (ctx : ContextId)
  | tryAsyncDeliverError (ctx : ContextId) (posted : Bool)
  | runErrorTask (ctx : ContextId)
  | dispatch (txid : Nat)
  | notify (ctx : ContextId)
  /-- The transport is extracted, or `FinishTeardown` gives up the binding. -/
  | loseTransport
  | releaseResponseContexts
  deriving DecidableEq, Repr

def kUserspaceTxidMask : Nat := 0x7FFFFFFF

/-- The two nested loops of `PrepareAsyncTxn`: the next value of `txid_base_`
whose masked is neither zero nor a key of the tree. The masked runs
through all keys in `2 ^ 31` rounds, so with that much fuel `none` means that
the loop never ends. -/
def nextTxid (contexts : List (Nat × ContextId)) : (fuel base : Nat) → Option (Nat × Nat)
  | 0, _ => none
  | fuel + 1, base =>
    let base := (base + 1) % 2 ^ 32
    let txid := base &&& kUserspaceTxidMask
    if txid = 0 ∨ contexts.any (fun entry => entry.1 == txid) then nextTxid contexts fuel base
    else some (base, txid)

namespace State

def setPhase (st : State) (ctx : ContextId) (phase : Phase) : State :=
  { st with calls := st.calls.set ctx phase }

def prepareAsyncTxn (st : State) (ctx : ContextId) : Option State :=
  (nextTxid st.contexts (2 ^ 31) st.txidBase).map fun (base, txid) =>
    { st.setPhase ctx .registered with
      txidBase := base
      contexts := st.contexts ++ [(txid, ctx)]
      deleteList := st.deleteList ++ [ctx] }

/-- The context leaves the tree and the list. -/
def erase (st : State) (entry : Nat × ContextId) : State :=
  { st with
    contexts := st.contexts.erase entry, deleteList := st.deleteList.erase entry.2 }

def forgetAsyncTxn (st : State) (ctx : ContextId) : State :=
  match st.contexts.find? fun entry => entry.2 == ctx with
  | some entry => (st.erase entry).setPhase ctx .delivering
  | none => { st with aborted := true }

/-- `Dispatch` of a response. An unknown txid changes nothing here; it tears
the binding down. -/
def dispatch (st : State) (txid : Nat) : State :=
  match st.contexts.find? fun entry => entry.1 == txid with
  | some entry => { st.erase entry with owed := entry.2 :: st.owed }
  | none => st

def releaseResponseContexts (st : State) : State :=
  { st with
    contexts := [], deleteList := [], owed := st.deleteList ++ st.owed, released := true }

end State

def step (st : State) (label : Label) : Option State :=
  if st.aborted then none
  else match label with
  | .sendTwoWay =>
    let phase := if st.bound then .holding else .delivering
    some { st with calls := st.calls ++ [phase] }
  | .prepareAsyncTxn ctx =>
    if st.calls[ctx]? = some .holding then st.prepareAsyncTxn ctx else none
  | .write ctx ok =>
    if st.calls[ctx]? = some .registered then
      some (st.setPhase ctx (if ok then .returned else .writeFailed))
    else none
  | .forgetAsyncTxn ctx =>
    if st.calls[ctx]? = some .writeFailed then some (st.forgetAsyncTxn ctx) else none
  | .tryAsyncDeliverError ctx posted =>
    if st.calls[ctx]? = some .delivering then
      if posted then some (st.setPhase ctx .errorPosted)
      else some { st.setPhase ctx .returned with notified := ctx :: st.notified }
    else none
  | .runErrorTask ctx =>
    if st.calls[ctx]? = some .errorPosted then
      some { st.setPhase ctx .returned with notified := ctx :: st.notified }
    else none
  | .dispatch txid => some (st.dispatch txid)
  | .notify ctx =>
    if ctx ∈ st.owed then
      some { st with
        owed := st.owed.erase ctx, notified := ctx :: st.notified }
    else none
  | .loseTransport => some { st with bound := false }
  | .releaseResponseContexts =>
    if !st.bound ∧ !st.released then some st.releaseResponseContexts else none

/-! ## Every context has one owner -/

/-- In these phases the call itself, or its error task, will see to the
notification. -/
def Phase.owns : Phase → Bool
  | .holding | .delivering | .errorPosted => true
  | .registered | .writeFailed | .returned => false

def State.owns (st : State) (ctx : ContextId) : Nat :=
  if (st.calls[ctx]?).any Phase.owns then 1 else 0

structure Inv (st : State) : Prop where
  listed : st.deleteList.Perm (st.contexts.map Prod.snd)
  ledger : ∀ ctx : Nat, st.owns ctx + st.deleteList.count ctx +
    st.owed.count ctx + st.notified.count ctx = if ctx < st.calls.length then 1 else 0

variable {st next : State} {label : Label}

lemma inv_init : Inv {} := by
  constructor <;> simp [State.owns]

@[simp] lemma setPhase_notified :
    (st.setPhase ctx phase).notified = st.notified := rfl

@[simp] lemma setPhase_deleteList :
    (st.setPhase ctx phase).deleteList = st.deleteList := rfl

@[simp] lemma erase_notified :
    (st.erase entry).notified = st.notified := rfl

lemma getElem?_setPhase (found : st.calls[ctx]? = some old) (phase : Phase)
    (other : ContextId) : (st.setPhase ctx phase).calls[other]? =
      if other = ctx then some phase else st.calls[other]? := by
  have inside : ctx < st.calls.length := (List.getElem?_eq_some_iff.mp found).1
  by_cases same : other = ctx
  · subst same
    simp [State.setPhase, inside]
  · have apart : ¬ctx = other := fun equal => same equal.symm
    simp [State.setPhase, same, apart]

private lemma owns_setPhase (found : st.calls[ctx]? = some old) (phase : Phase) (other : ContextId) :
    (st.setPhase ctx phase).owns other =
      if other = ctx then (if phase.owns then 1 else 0) else st.owns other := by
  simp only [State.owns, getElem?_setPhase found]
  split <;> simp

lemma owns_of_phase (found : st.calls[ctx]? = some phase) :
    st.owns ctx = if phase.owns then 1 else 0 := by
  simp [State.owns, found]

section

variable (inv : Inv st)
include inv

/-- A call moves to another phase, and the context changes hands between the
call, the tree with its list, and the notified ones. -/
lemma Inv.transfer (found : st.calls[ctx]? = some old) (phase : Phase)
    (listed : deleteList.Perm (contexts.map Prod.snd))
    (balance : ∀ other, (if other = ctx ∧ phase.owns then 1 else 0) +
        deleteList.count other + notified.count other = (if other = ctx ∧ old.owns then 1 else 0) +
        st.deleteList.count other + st.notified.count other) : Inv { st.setPhase ctx phase with
      txidBase := base, contexts := contexts, deleteList := deleteList, notified := notified } := by
  refine ⟨listed, ?_⟩
  intro other
  have before := inv.ledger other
  have moved := balance other
  have after := owns_setPhase found phase other
  have size : (st.setPhase ctx phase).calls.length = st.calls.length :=
    length_set
  change (st.setPhase ctx phase).owns other + deleteList.count other +
    st.owed.count other + notified.count other = _
  rw [after, size, ← before]
  by_cases same : other = ctx
  · subst same
    rw [owns_of_phase found]
    simp only [true_and, if_true] at moved ⊢
    omega
  · simp only [same, false_and, if_false] at moved ⊢
    omega

/-- `OnError` on behalf of the call. -/
lemma Inv.onError (found : st.calls[ctx]? = some old) (owner : old.owns = true) :
    Inv { st.setPhase ctx .returned with notified := ctx :: st.notified } := by
  refine inv.transfer found .returned inv.listed ?_
  intro other
  by_cases same : other = ctx
  · simp [show Phase.returned.owns = false from rfl, owner, same]
    omega
  · have apart : ¬ctx = other := fun equal => same equal.symm
    simp [same, apart]

lemma Inv.sendTwoWay (owner : phase.owns = true) : Inv { st with calls := st.calls ++ [phase] } := by
  refine ⟨inv.listed, ?_⟩
  intro other
  have before := inv.ledger other
  rcases Nat.lt_trichotomy other st.calls.length with inside | rfl | outside
  · have later : other < st.calls.length + 1 := by omega
    simpa [State.owns, getElem?_append_left inside, inside, later] using before
  · simp only [State.owns, getElem?_concat_length, any_some, owner, if_true,
      getElem?_eq_none (Nat.le_refl _), any_none, Nat.lt_irrefl, if_false,
      length_append, length_singleton, Nat.lt_succ_self] at before ⊢
    omega
  · have bound : ¬other < st.calls.length := by omega
    have bound' : ¬other < st.calls.length + 1 := by omega
    simpa [State.owns, getElem?_eq_none, Nat.le_of_lt outside, Nat.succ_le_of_lt outside,
      bound, bound'] using before

lemma Inv.mem_deleteList : ctx ∈ st.deleteList ↔ ∃ entry ∈ st.contexts, entry.2 = ctx := by
  rw [inv.listed.mem_iff, List.mem_map]

/-- Both places that take one context out keep the tree and the list alike. -/
lemma Inv.erase_listed (mem : entry ∈ st.contexts) :
    (st.erase entry).deleteList.Perm ((st.erase entry).contexts.map Prod.snd) := by
  have split := (perm_cons_erase mem).map Prod.snd
  have both := (inv.listed.trans split).erase entry.2
  rwa [map_cons, erase_cons_head] at both

lemma Inv.erase_count (mem : entry ∈ st.contexts) (other : ContextId) :
    (st.erase entry).deleteList.count other + (if other = entry.2 then 1 else 0) =
      st.deleteList.count other := by
  have present : entry.2 ∈ st.deleteList := inv.mem_deleteList.mpr ⟨entry, mem, rfl⟩
  have positive := count_pos_iff.mpr present
  simp only [State.erase, count_erase]
  grind

private lemma prepareAsyncTxn_keeps (found : st.calls[ctx]? = some .holding)
    (registered : st.prepareAsyncTxn ctx = some next) : Inv next := by
  obtain ⟨⟨_, _⟩, -, rfl⟩ := map_eq_some_iff.mp registered
  refine inv.transfer found .registered ?_ ?_
  · simpa using inv.listed.append_right [ctx]
  · intro other
    by_cases same : other = ctx
    · simp [Phase.owns, same]
      omega
    · have apart : ¬ctx = other := fun equal => same equal.symm
      simp [Phase.owns, same, apart]

lemma forgetAsyncTxn_keeps
    (found : st.calls[ctx]? = some .writeFailed) : Inv (st.forgetAsyncTxn ctx) := by
  unfold State.forgetAsyncTxn
  split
  next entry registered =>
    have mem := mem_of_find?_eq_some registered
    have own : entry.2 = ctx := by simpa using find?_some registered
    refine inv.transfer found .delivering (inv.erase_listed mem) ?_
    intro other
    have left := inv.erase_count mem other
    rw [← left, own]
    by_cases same : other = ctx
    · simp [Phase.owns, same]
      omega
    · simp [Phase.owns, same]
  · exact ⟨inv.listed, inv.ledger⟩

private lemma dispatch_keeps (txid : Nat) : Inv (st.dispatch txid) := by
  unfold State.dispatch
  split
  next entry found =>
    have mem := mem_of_find?_eq_some found
    refine ⟨inv.erase_listed mem, ?_⟩
    intro other
    have before := inv.ledger other
    have left := inv.erase_count mem other
    change st.owns other + (st.erase entry).deleteList.count other +
      (entry.2 :: st.owed).count other + st.notified.count other =
        if other < st.calls.length then 1 else 0
    rw [count_cons]
    by_cases same : entry.2 = other
    · subst same
      simp only [beq_self_eq_true, if_true] at left ⊢
      omega
    · have apart : ¬other = entry.2 := fun equal => same equal.symm
      simp only [beq_iff_eq, same, apart, if_false] at left ⊢
      omega
  · exact inv

private lemma notify_keeps (mem : ctx ∈ st.owed) : Inv { st with
      owed := st.owed.erase ctx, notified := ctx :: st.notified } := by
  refine ⟨inv.listed, ?_⟩
  intro other
  have before := inv.ledger other
  have present := count_pos_iff.mpr mem
  change st.owns other + st.deleteList.count other +
    (st.owed.erase ctx).count other + (ctx :: st.notified).count other = _
  rw [count_erase, count_cons]
  grind

private lemma releaseResponseContexts_keeps : Inv st.releaseResponseContexts := by
  refine ⟨List.Perm.refl _, ?_⟩
  intro other
  have before := inv.ledger other
  change st.owns other + [].count other + (st.deleteList ++ st.owed).count other +
    st.notified.count other = if other < st.calls.length then 1 else 0
  rw [count_nil, count_append]
  omega

lemma step_keeps (stepped : step st label = some next) : Inv next := by
  unfold step at stepped
  split at stepped
  · cases stepped
  cases label with
  | sendTwoWay =>
    cases stepped
    exact inv.sendTwoWay (by cases st.bound <;> rfl)
  | prepareAsyncTxn ctx =>
    obtain ⟨found, moved⟩ := ite_none_right_eq_some.mp stepped
    exact prepareAsyncTxn_keeps inv found moved
  | write ctx ok =>
    obtain ⟨found, rfl⟩ := of_guard stepped
    exact inv.transfer found _ inv.listed (by cases ok <;> simp [Phase.owns])
  | forgetAsyncTxn ctx =>
    obtain ⟨found, rfl⟩ := of_guard stepped
    exact forgetAsyncTxn_keeps inv found
  | tryAsyncDeliverError ctx =>
    obtain ⟨found, moved⟩ := ite_none_right_eq_some.mp stepped
    split at moved <;> cases moved
    · exact inv.transfer found _ inv.listed (by simp [Phase.owns])
    · exact inv.onError found rfl
  | runErrorTask ctx =>
    obtain ⟨found, rfl⟩ := of_guard stepped
    exact inv.onError found rfl
  | dispatch txid =>
    cases stepped
    exact dispatch_keeps inv txid
  | notify ctx =>
    obtain ⟨mem, rfl⟩ := of_guard stepped
    exact notify_keeps inv mem
  | loseTransport =>
    cases stepped
    exact ⟨inv.listed, inv.ledger⟩
  | releaseResponseContexts =>
    obtain ⟨-, rfl⟩ := of_guard stepped
    exact releaseResponseContexts_keeps inv

end

/-! ## Calls that no teardown cuts in two -/

/-- The condition on a step. A message is not written successfully for a
context registered after the release; and while a call whose write failed has
not yet taken its context back, neither the release nor a response takes it. -/
def RaceFree (st : State) : Label → Prop
  | .write ctx true => ¬(st.released = true ∧ ctx ∈ st.deleteList)
  | .write ctx false => ctx ∈ st.deleteList
  | .dispatch txid => ∀ entry ∈ st.contexts, entry.1 = txid →
      st.calls[entry.2]? ≠ some .writeFailed
  | .releaseResponseContexts => Phase.writeFailed ∉ st.calls
  | _ => True

instance (st : State) (label : Label) : Decidable (RaceFree st label) := by
  unfold RaceFree
  split <;> infer_instance

structure Settled (st : State) : Prop where
  failed : ∀ ctx : Nat, st.calls[ctx]? = some .writeFailed → ctx ∈ st.deleteList
  late : st.released = true → ∀ ctx ∈ st.deleteList,
    st.calls[ctx]? = some .registered ∨ st.calls[ctx]? = some .writeFailed
  alive : st.aborted = false

lemma Inv.unlisted (inv : Inv st) (found : st.calls[ctx]? = some phase)
    (owner : phase.owns = true) : ctx ∉ st.deleteList := by
  intro mem
  have positive := count_pos_iff.mpr mem
  have balance := inv.ledger ctx
  rw [owns_of_phase found, if_pos owner] at balance
  split at balance <;> omega

/-- A call moves to another phase; only its own context may enter or leave the
list. -/
lemma Settled.rephase (settled : Settled st) (found : st.calls[ctx]? = some old)
    (others : ∀ other, other ≠ ctx → (other ∈ deleteList ↔ other ∈ st.deleteList))
    (failed : phase = .writeFailed → ctx ∈ deleteList)
    (late : st.released = true → ctx ∈ deleteList →
      phase = .registered ∨ phase = .writeFailed) : Settled { st.setPhase ctx phase with
      txidBase := base, contexts := contexts, deleteList := deleteList, notified := notified } := by
  refine ⟨?_, ?_, settled.alive⟩
  · intro other writeFailed
    rw [getElem?_setPhase found] at writeFailed
    split at writeFailed
    next same => exact same ▸ failed (some.inj writeFailed)
    next apart => exact (others other apart).mpr (settled.failed other writeFailed)
  · intro released other mem
    rw [getElem?_setPhase found]
    split
    next same => simpa using late released (same ▸ mem)
    next apart => exact settled.late released other ((others other apart).mp mem)

private lemma settled_sendTwoWay (settled : Settled st) (begun : phase ≠ .writeFailed) :
    Settled { st with calls := st.calls ++ [phase] } := by
  refine ⟨?_, ?_, settled.alive⟩
  · intro ctx writeFailed
    rw [getElem?_append] at writeFailed
    split at writeFailed
    · exact settled.failed ctx writeFailed
    · have last := mem_of_getElem? writeFailed
      exact absurd (mem_singleton.mp last).symm begun
  · intro released ctx mem
    have phase := settled.late released ctx mem
    have inside : ctx < st.calls.length := by
      rcases phase with found | found <;> exact (List.getElem?_eq_some_iff.mp found).1
    rwa [getElem?_append_left inside]

private lemma settled_forgetAsyncTxn (inv : Inv st) (settled : Settled st)
    (found : st.calls[ctx]? = some .writeFailed) : Settled (st.forgetAsyncTxn ctx) := by
  have after := forgetAsyncTxn_keeps inv found
  unfold State.forgetAsyncTxn at after ⊢
  split at after
  next entry registered =>
    have own : entry.2 = ctx := by simpa using find?_some registered
    refine settled.rephase found ?_ (by simp) ?_
    · intro _ apart
      exact mem_erase_of_ne (own ▸ apart)
    · intro _ mem
      have delivering := getElem?_setPhase found .delivering ctx
      rw [if_pos rfl] at delivering
      exact absurd mem (after.unlisted delivering rfl)
  next missing =>
    obtain ⟨entry, mem, own⟩ := inv.mem_deleteList.mp (settled.failed ctx found)
    have different := find?_eq_none.mp missing entry mem
    simp [own] at different

private lemma settled_dispatch (settled : Settled st) (raceFree : ∀ entry ∈ st.contexts, entry.1 = txid →
      st.calls[entry.2]? ≠ some .writeFailed) : Settled (st.dispatch txid) := by
  unfold State.dispatch
  split
  next entry found =>
    have mem := mem_of_find?_eq_some found
    have key : entry.1 = txid := by simpa using find?_some found
    refine ⟨?_, ?_, settled.alive⟩
    · intro ctx writeFailed
      have apart : ctx ≠ entry.2 := by
        rintro rfl
        exact raceFree entry mem key writeFailed
      exact (mem_erase_of_ne apart).mpr (settled.failed ctx writeFailed)
    · intro released ctx listed
      exact settled.late released ctx (mem_of_mem_erase listed)
  · exact settled

private lemma settled_keeps (inv : Inv st) (settled : Settled st) (raceFree : RaceFree st label)
    (stepped : step st label = some next) : Settled next := by
  unfold step at stepped
  split at stepped
  · cases stepped
  cases label with
  | sendTwoWay =>
    cases stepped
    exact settled_sendTwoWay settled (by cases st.bound <;> simp)
  | prepareAsyncTxn ctx =>
    obtain ⟨found, moved⟩ := ite_none_right_eq_some.mp stepped
    obtain ⟨⟨base, txid⟩, -, rfl⟩ := map_eq_some_iff.mp moved
    exact settled.rephase found (by intro _ apart; simp [apart]) (by simp) (by simp)
  | write ctx ok =>
    obtain ⟨found, rfl⟩ := of_guard stepped
    cases ok with
    | true =>
      exact settled.rephase found (fun _ _ => Iff.rfl) (by simp)
        (fun released listed => absurd ⟨released, listed⟩ raceFree)
    | false => exact settled.rephase found (fun _ _ => Iff.rfl) (fun _ => raceFree) (by simp)
  | forgetAsyncTxn ctx =>
    obtain ⟨found, rfl⟩ := of_guard stepped
    exact settled_forgetAsyncTxn inv settled found
  | tryAsyncDeliverError ctx =>
    obtain ⟨found, moved⟩ := ite_none_right_eq_some.mp stepped
    have unlisted := inv.unlisted found rfl
    split at moved
    all_goals
      cases moved
      exact settled.rephase found (fun _ _ => Iff.rfl) (by simp)
        (fun _ listed => absurd listed unlisted)
  | runErrorTask ctx =>
    obtain ⟨found, moved⟩ := ite_none_right_eq_some.mp stepped
    have unlisted := inv.unlisted found rfl
    cases moved
    exact settled.rephase found (fun _ _ => Iff.rfl) (by simp)
      (fun _ listed => absurd listed unlisted)
  | dispatch txid =>
    cases stepped
    exact settled_dispatch settled raceFree
  | notify ctx =>
    obtain ⟨-, rfl⟩ := of_guard stepped
    exact ⟨settled.failed, settled.late, settled.alive⟩
  | loseTransport =>
    cases stepped
    exact ⟨settled.failed, settled.late, settled.alive⟩
  | releaseResponseContexts =>
    obtain ⟨-, rfl⟩ := of_guard stepped
    refine ⟨?_, fun _ _ listed => absurd listed not_mem_nil, settled.alive⟩
    intro ctx writeFailed
    exact absurd (mem_of_getElem? writeFailed) raceFree

/-! ## Whole runs -/

/-- Teardown has released the contexts, every call has returned and nobody is
about to notify a context. -/
def Quiescent (st : State) : Prop :=
  st.released = true ∧ (∀ phase ∈ st.calls, phase = .returned) ∧ st.owed = []

instance (st : State) : Decidable (Quiescent st) :=
  inferInstanceAs (Decidable (_ ∧ _))

lemma Inv.notified_once (inv : Inv st) (ctx : ContextId) : st.notified.count ctx ≤ 1 := by
  have balance := inv.ledger ctx
  split at balance <;> omega

lemma Inv.quiescent (inv : Inv st) (settled : Settled st) (quiescent : Quiescent st) :
    ∀ ctx < st.calls.length, st.notified.count ctx = 1 := by
  obtain ⟨released, returned, owed⟩ := quiescent
  intro ctx inside
  have found : st.calls[ctx]? = some .returned := by
    rw [getElem?_eq_getElem inside, returned _ (getElem_mem inside)]
  have unlisted : st.deleteList.count ctx = 0 := by
    apply count_eq_zero.mpr
    intro mem
    have phase := settled.late released ctx mem
    rw [found] at phase
    simp at phase
  have balance := inv.ledger ctx
  rw [owns_of_phase found, unlisted, owed, if_pos inside] at balance
  simpa [Phase.owns] using balance

/-- In every run no context is notified twice; in a run without the races, the
assertion never fires and every context is notified in the end. -/
theorem sendTwoWay_notifies (ran : run step {} labels = some st) :
    (∀ ctx, st.notified.count ctx ≤ 1) ∧
    (Admissible step RaceFree {} labels → st.aborted = false ∧
      (Quiescent st → ∀ ctx < st.calls.length, st.notified.count ctx = 1)) := by
  have inv : Inv st := run_keeps (fun _ _ _ inv stepped => step_keeps inv stepped) inv_init ran
  refine ⟨inv.notified_once, ?_⟩
  intro raceFree
  have keeps : ∀ st label next, Inv st ∧ Settled st → RaceFree st label →
      step st label = some next → Inv next ∧ Settled next :=
    fun _ _ _ holds here stepped =>
      ⟨step_keeps holds.1 stepped, settled_keeps holds.1 holds.2 here stepped⟩
  have settled := (run_invariant keeps ⟨inv_init, by simp, by simp, rfl⟩ raceFree ran).2
  exact ⟨settled.alive, inv.quiescent settled⟩

/-- Four calls: one is answered, one is released by the teardown, the write of
the third fails, and the fourth comes too late for a transport. -/
def orderly : List Label :=
  [.sendTwoWay, .prepareAsyncTxn 0, .write 0 true, .dispatch 1, .notify 0,
    .sendTwoWay, .prepareAsyncTxn 1, .write 1 true,
    .sendTwoWay, .prepareAsyncTxn 2, .write 2 false, .forgetAsyncTxn 2, .loseTransport,
    .tryAsyncDeliverError 2 true, .releaseResponseContexts, .notify 1, .runErrorTask 2,
    .sendTwoWay, .tryAsyncDeliverError 3 false]

theorem sendTwoWay_notifies_orderly :
    ∃ st, run step {} orderly = some st ∧ Admissible step RaceFree {} orderly ∧
      Quiescent st ∧ st.calls.length = 4 ∧ st.aborted = false ∧
      ∀ ctx < st.calls.length, st.notified.count ctx = 1 := by
  obtain ⟨st, ran, quiescent, four⟩ : ∃ st, run step {} orderly = some st ∧
      Quiescent st ∧ st.calls.length = 4 := ⟨_, rfl, by decide, rfl⟩
  have raceFree : Admissible step RaceFree {} orderly := by decide
  obtain ⟨-, settled⟩ := sendTwoWay_notifies ran
  obtain ⟨alive, notified⟩ := settled raceFree
  exact ⟨st, ran, raceFree, quiescent, four, alive, notified quiescent⟩

/-- Teardown falls between `GetTransportOrError` and `PrepareAsyncTxn`: the
write succeeds and nobody is left to notify the context. And it falls between
`PrepareAsyncTxn` and a failing write: the assertion of `ForgetAsyncTxn`
fires. -/
theorem teardown_within_sendTwoWay :
    (∃ st, run step {} [.sendTwoWay, .loseTransport, .releaseResponseContexts,
        .prepareAsyncTxn 0, .write 0 true] = some st ∧
      Quiescent st ∧ 0 < st.calls.length ∧ st.notified.count 0 = 0) ∧
    ∃ st, run step {} [.sendTwoWay, .prepareAsyncTxn 0, .loseTransport,
        .releaseResponseContexts, .notify 0, .write 0 false, .forgetAsyncTxn 0] = some st ∧
      st.aborted = true :=
  ⟨⟨_, rfl, by decide, by decide, by decide⟩, ⟨_, rfl, rfl⟩⟩

end FuchsiaSdk.ClientBase
