import FuchsiaSdk.Bridge
import Mathlib.Logic.Function.Basic

/-! A chain of bridges. `sequencer` and `barrier` keep the consumer of the latest
bridge in `prior_`; every call makes a bridge, takes the prior consumer and leaves
its own. Member `k` of the chain then holds the consumer of bridge `k` and the
completer of bridge `k + 1`, which it never completes: it drops it once it is
done. The completer of bridge 0 is dropped by the constructor. -/
namespace FuchsiaSdk.BridgeChain
open Bridge Function

abbrev Link : Type := BridgeState Unit Unit

namespace Link

variable (link : Link)

/-- A completer is destroyed that did not complete: its section, and the drop of its
reference. -/
def abandon : Option (Link × Notice) := do
  let (link, notice) ← link.dropCompletionRef
  let (link, _) ← link.dropRef
  return (link, notice)

/-- A consumer is destroyed that did not consume. -/
def cancel : Option (Link × Option Task) := do
  let (link, taskToDrop) ← link.dropConsumptionRef
  let (link, _) ← link.dropRef
  return (link, taskToDrop)

/-- A promise of the consumer is polled. -/
def poll (task : Task) : Option (Link × Awaited Unit Unit) := do
  match ← link.awaitResult task with
  | (link, .pending taskToDrop) => return (link, .pending taskToDrop)
  | (link, .returned result) =>
    let (link, _) ← link.dropRef
    return (link, .returned result)

end Link

/-- The bridge of a constructor, whose completer goes at its end. -/
def abandonedLink : Link := { refCount := 1, disposition := .abandoned }

example : (Link.abandon {}).map Prod.fst = some abandonedLink := rfl

/-- What has become of the consumer of a bridge. -/
inductive Holder where
  | holding
  /-- A poll has returned the result. -/
  | returned
  /-- It was destroyed. -/
  | canceled
  deriving DecidableEq, Repr

def Holder.refs : Holder → Nat
  | .holding => 1
  | .returned => 0
  | .canceled => 0

/-- The dispositions of a bridge whose completer is, or is not yet, released. -/
def Settled : (released : Bool) → Holder → Disposition → Prop
  | false, .holding, disposition => disposition = .pending
  | true, .holding, disposition => disposition = .abandoned
  | released, .returned, disposition => released = true ∧ disposition = .returned
  | false, .canceled, disposition => disposition = .canceled
  | true, .canceled, disposition => disposition = .canceled ∨ disposition = .abandoned

structure Linked (released : Bool) (holder : Holder) (link : Link) : Prop where
  disposition : Settled released holder link.disposition
  refs : link.refCount = (!released).toNat + holder.refs

private lemma linked_new : Linked false .holding {} := ⟨rfl, rfl⟩

private lemma linked_abandoned : Linked true .holding abandonedLink := ⟨rfl, rfl⟩

section

variable {released : Bool} {holder : Holder} {link : Link}

/-- A consumer that waits finds the bridge pending or abandoned. -/
lemma Linked.opened (linked : Linked released .holding link) :
    link.disposition = .pending ∨ link.disposition = .abandoned := by
  cases released with
  | false => exact .inl linked.disposition
  | true => exact .inr linked.disposition

lemma Linked.is_released (linked : Linked released .returned link) : released = true := by
  cases released with
  | false => exact linked.disposition.1
  | true => rfl

lemma Linked.of_eq (linked : Linked released holder link) (same : other = link) :
    Linked released holder other := by
  rwa [same]

/-- The completer is dropped without completing. -/
lemma Linked.abandon (linked : Linked false holder link) :
    ∃ next notice, Link.abandon link = some (next, notice) ∧ Linked true holder next ∧
      next.result = link.result := by
  have counted : link.refCount = holder.refs + 1 := by
    rw [linked.refs, Nat.add_comm]
    rfl
  cases holder with
  | holding =>
    refine ⟨{ link with disposition := .abandoned, task := none, refCount := 1 },
      ⟨link.task, !link.result.isPending⟩, ?_, ⟨rfl, rfl⟩, rfl⟩
    simp [Link.abandon, dropCompletionRef_pending linked.disposition, BridgeState.dropRef, counted,
      Holder.refs]
  | returned => exact absurd linked.disposition.1 Bool.false_ne_true
  | canceled =>
    refine ⟨{ link with refCount := 0 }, {}, ?_, ⟨.inl linked.disposition, rfl⟩, rfl⟩
    simp [Link.abandon, dropCompletionRef_canceled linked.disposition, BridgeState.dropRef, counted,
      Holder.refs]

/-- The consumer is dropped without consuming. -/
lemma Linked.cancel (linked : Linked released .holding link) :
    ∃ next task, Link.cancel link = some (next, task) ∧ Linked released .canceled next := by
  have counted : link.refCount = (!released).toNat + 1 := linked.refs
  cases released with
  | false =>
    refine ⟨{ link with disposition := .canceled, task := none, result := .pending, refCount := 1 },
      link.task, ?_, ⟨rfl, rfl⟩⟩
    simp [Link.cancel, dropConsumptionRef_pending linked.disposition, BridgeState.dropRef, counted]
  | true =>
    refine ⟨{ link with refCount := 0 }, none, ?_, ⟨.inr linked.disposition, rfl⟩⟩
    simp [Link.cancel, dropConsumptionRef_settled (.inl linked.disposition), BridgeState.dropRef,
      counted]

/-- `promise_or(ok())`. -/
lemma Linked.promiseOr (linked : Linked released .holding link) :
    ∃ next, link.setResultIfAbandoned (.ok ()) = some next ∧ Linked released .holding next ∧
      next.result = .ok () :=
  ⟨_, setResultIfAbandoned_open linked.opened rfl, ⟨linked.disposition, linked.refs⟩, rfl⟩

/-- A poll suspends as long as the completer is held, and returns the fallback from
then on. -/
lemma Linked.poll (linked : Linked released .holding link) (task : Task) :
    (∃ next before, Link.poll link task = some (next, .pending before) ∧
      Linked released .holding next ∧ next.result = link.result) ∨
    (released = true ∧ ∃ next, Link.poll link task = some (next, .returned link.result) ∧
      Linked true .returned next) := by
  cases released with
  | false =>
    refine .inl ⟨{ link with task := some task }, link.task, ?_,
      ⟨linked.disposition, linked.refs⟩, rfl⟩
    simp [Link.poll, awaitResult_pending linked.disposition]
  | true =>
    have counted : link.refCount = 0 + 1 := linked.refs
    refine .inr ⟨rfl, { link with disposition := .returned, result := .pending, refCount := 0 },
      ?_, ⟨⟨rfl, rfl⟩, rfl⟩⟩
    simp [Link.poll, awaitResult_settled (.inl linked.disposition), BridgeState.dropRef, counted]

end

/-! ## The chain -/

/-- What the phase of a member says about its two bridges. -/
structure Standing where
  /-- The completer of the next bridge is dropped. -/
  released : Bool
  /-- The consumer of its own bridge. -/
  holder : Holder
  /-- `promise_or` has set the fallback, and the promise is not yet resolved. -/
  waits : Bool := false
  deriving DecidableEq, Repr

structure Chain (Phase : Type) where
  links : Nat → Link := Function.update (fun _ => {}) 0 abandonedLink
  member : Nat → Option Phase := fun _ => none
  /-- How many calls have swapped `prior_`. -/
  count : Nat := 0
  /-- The owner of `prior_` was not destroyed. -/
  alive : Bool := true
  /-- An assertion has failed. -/
  failed : Bool := false

variable {Phase : Type}

namespace Chain

variable (chain : Chain Phase)

def fail : Chain Phase := { chain with failed := true }

def setLink (i : Nat) (link : Link) : Chain Phase :=
  { chain with links := Function.update chain.links i link }

def moveTo (i : Nat) (phase : Phase) : Chain Phase :=
  { chain with member := Function.update chain.member i (some phase) }

/-- `swap_prior`, with the consumer of a new bridge. -/
def swapPrior (phase : Phase) : Chain Phase :=
  { chain.moveTo chain.count phase with count := chain.count + 1 }

/-- `promise_or(ok())`, on the prior consumer. -/
def promiseOr (i : Nat) (phase : Phase) : Chain Phase :=
  match (chain.links i).setResultIfAbandoned (.ok ()) with
  | none => chain.fail
  | some link => (chain.setLink i link).moveTo i phase

/-- The promise of the prior consumer is polled; the member moves if it is resolved. -/
def poll (i : Nat) (task : Task) (phase : Phase) : Chain Phase :=
  match Link.poll (chain.links i) task with
  | none => chain.fail
  | some (link, .pending _) => chain.setLink i link
  | some (link, .returned result) =>
    if result.isPending then chain.fail else (chain.setLink i link).moveTo i phase

/-- The member drops its completer. -/
def abandon (i : Nat) (phase : Phase) : Chain Phase :=
  match Link.abandon (chain.links (i + 1)) with
  | none => chain.fail
  | some (link, _) => (chain.setLink (i + 1) link).moveTo i phase

/-- The member drops the prior consumer, or the promise made of it. -/
def cancel (i : Nat) (phase : Phase) : Chain Phase :=
  match Link.cancel (chain.links i) with
  | none => chain.fail
  | some (link, _) => (chain.setLink i link).moveTo i phase

/-- The owner of `prior_` is destroyed. -/
def destroy : Chain Phase :=
  match Link.cancel (chain.links chain.count) with
  | none => chain.fail
  | some (link, _) => { chain.setLink chain.count link with alive := false }

variable (standing : Phase → Standing)

/-- Whether the completer of a bridge is released. -/
def releasedAt : Nat → Bool
  | 0 => true
  | i + 1 => ((chain.member i).map fun phase => (standing phase).released).getD false

/-- Where the consumer of a bridge is: with the member, with `prior_`, or gone with it. -/
def holderAt (i : Nat) : Holder :=
  ((chain.member i).map fun phase => (standing phase).holder).getD
    (if i = chain.count ∧ chain.alive = false then .canceled else .holding)

end Chain

structure Inv (standing : Phase → Standing) (chain : Chain Phase) : Prop where
  failed : chain.failed = false
  fresh : ∀ i, chain.count ≤ i → chain.member i = none
  links : ∀ i, Linked (chain.releasedAt standing i) (chain.holderAt standing i)
    (chain.links i)
  waits : ∀ i phase, chain.member i = some phase → (standing phase).waits = true →
    (chain.links i).result = .ok ()

section

variable {standing : Phase → Standing} {chain : Chain Phase} {i : Nat} {old new : Phase}

lemma inv_start : Inv standing ({} : Chain Phase) where
  failed := rfl
  fresh _ _ := rfl
  links i := by
    cases i with
    | zero => exact linked_abandoned
    | succ i => exact linked_new
  waits _ _ found := absurd found nofun

lemma holderAt_some (found : chain.member i = some old) :
    chain.holderAt standing i = (standing old).holder := by
  simp [Chain.holderAt, found]

lemma releasedAt_some (found : chain.member i = some old) :
    chain.releasedAt standing (i + 1) = (standing old).released := by
  simp [Chain.releasedAt, found]

/-- A member is below the count. -/
lemma Inv.lt_count (inv : Inv standing chain) (found : chain.member i = some old) :
    i < chain.count := by
  by_contra beyond
  rw [inv.fresh i (Nat.not_lt.mp beyond)] at found
  cases found

/-- Once a poll has returned, the member before has released its completer. -/
lemma Inv.released (inv : Inv standing chain) (found : chain.member i = some old)
    (returned : (standing old).holder = .returned) : chain.releasedAt standing i = true := by
  have linked := inv.links i
  rw [holderAt_some found, returned] at linked
  exact linked.is_released

/-- A member moves, and its two bridges with it. -/
structure Moves (chain next : Chain Phase) (i : Nat) (new : Phase) : Prop where
  member : next.member = Function.update chain.member i (some new)
  count : next.count = chain.count
  alive : next.alive = chain.alive
  failed : next.failed = chain.failed
  elsewhere : ∀ other, other ≠ i → other ≠ i + 1 → next.links other = chain.links other

lemma Inv.moves (inv : Inv standing chain)
    (found : chain.member i = some old) (moved : Moves chain next i new)
    (first : Linked (chain.releasedAt standing i) (standing new).holder (next.links i))
    (second : Linked (standing new).released (chain.holderAt standing (i + 1)) (next.links (i + 1)))
    (waitsFirst : (standing new).waits = true → (next.links i).result = .ok ())
    (waitsSecond : (next.links (i + 1)).result = (chain.links (i + 1)).result) :
    Inv standing next := by
  have below := inv.lt_count found
  have here : next.member i = some new := by rw [moved.member, update_self]
  have away : ∀ other, other ≠ i → next.member other = chain.member other := by
    intro other apart
    rw [moved.member, update_of_ne apart]
  have holders : ∀ other, other ≠ i →
      next.holderAt standing other = chain.holderAt standing other := by
    intro other apart
    simp only [Chain.holderAt, away other apart, moved.count, moved.alive]
  have releases : ∀ other, other ≠ i + 1 →
      next.releasedAt standing other = chain.releasedAt standing other := by
    intro other apart
    cases other with
    | zero => rfl
    | succ other => simp only [Chain.releasedAt, away other fun equal => apart (equal ▸ rfl)]
  refine ⟨moved.failed.trans inv.failed, ?_, ?_, ?_⟩
  · intro other beyond
    rw [moved.count] at beyond
    rw [away other (by omega)]
    exact inv.fresh other beyond
  · intro other
    by_cases isFirst : other = i
    · subst isFirst
      rw [holderAt_some here, releases other (by omega)]
      exact first
    · by_cases isSecond : other = i + 1
      · subst isSecond
        rw [releasedAt_some here, holders _ isFirst]
        exact second
      · rw [holders other isFirst, releases other isSecond, moved.elsewhere other isFirst isSecond]
        exact inv.links other
  · intro other phase mem waiting
    by_cases isFirst : other = i
    · subst isFirst
      obtain rfl : new = phase := Option.some.inj (here.symm.trans mem)
      exact waitsFirst waiting
    · rw [away other isFirst] at mem
      have result := inv.waits other phase mem waiting
      by_cases isSecond : other = i + 1
      · subst isSecond
        exact waitsSecond.trans result
      · rwa [moved.elsewhere other isFirst isSecond]

private lemma moves_moveTo : Moves chain (chain.moveTo i new) i new :=
  ⟨rfl, rfl, rfl, rfl, fun _ _ _ => rfl⟩

private lemma moves_first : Moves chain ((chain.setLink i link).moveTo i new) i new :=
  ⟨rfl, rfl, rfl, rfl, fun _ apart _ => update_of_ne apart _ _⟩

private lemma moves_second : Moves chain ((chain.setLink (i + 1) link).moveTo i new) i new :=
  ⟨rfl, rfl, rfl, rfl, fun _ _ apart => update_of_ne apart _ _⟩

section

variable (inv : Inv standing chain)
include inv

section

variable (found : chain.member i = some old) {new : Phase}
  (released : (standing new).released = (standing old).released)
include found released

/-- A member moves without touching a bridge. -/
lemma Inv.moveTo (holder : (standing new).holder = (standing old).holder)
    (waits : (standing new).waits = true → (standing old).waits = true) :
    Inv standing (chain.moveTo i new) := by
  refine inv.moves found moves_moveTo ?_ ?_ (fun waiting => inv.waits i old found (waits waiting))
    rfl
  · rw [holder, ← holderAt_some found]
    exact inv.links i
  · rw [released, ← releasedAt_some found]
    exact inv.links (i + 1)

/-- The consumer of a member moves, and the member with it. -/
lemma Inv.first (linked : Linked (chain.releasedAt standing i) (standing new).holder link)
    (waits : (standing new).waits = true → link.result = .ok ()) :
    Inv standing ((chain.setLink i link).moveTo i new) := by
  have here : (chain.setLink i link).links i = link := update_self ..
  have there : (chain.setLink i link).links (i + 1) = chain.links (i + 1) :=
    update_of_ne (Nat.succ_ne_self i) ..
  refine inv.moves found (moves_first) (linked.of_eq here) ?_
    (fun waiting => (congrArg _ here).trans (waits waiting)) (congrArg _ there)
  rw [released, ← releasedAt_some found]
  exact (inv.links (i + 1)).of_eq there

variable (new)

lemma Inv.promiseOr (before : (standing old).holder = .holding) (after : (standing new).holder = .holding) :
    Inv standing (chain.promiseOr i new) ∧
      (chain.promiseOr i new).member = update chain.member i (some new) := by
  have linked := inv.links i
  rw [holderAt_some found, before] at linked
  obtain ⟨link, set, linked, result⟩ := linked.promiseOr
  have outcome : chain.promiseOr i new = (chain.setLink i link).moveTo i new := by
    simp only [Chain.promiseOr, set]
  rw [outcome]
  exact ⟨inv.first found released (after ▸ linked) fun _ => result, rfl⟩

/-- A poll leaves the member where it is, or moves it. -/
lemma Inv.poll (task : Task) (before : (standing old).holder = .holding) (waiting : (standing old).waits = true)
    (after : (standing new).holder = .returned) (resolved : (standing new).waits = false) :
    Inv standing (chain.poll i task new) ∧ ((chain.poll i task new).member = chain.member ∨
        (chain.poll i task new).member = update chain.member i (some new)) := by
  have linked := inv.links i
  have result := inv.waits i old found waiting
  rw [holderAt_some found, before] at linked
  rcases linked.poll task with ⟨link, _, polled, linked, kept⟩ | ⟨open', link, polled, linked⟩
  · have outcome : chain.poll i task new = chain.setLink i link := by
      simp only [Chain.poll, polled]
    -- a member that stays moves to where it is
    have stays : chain.setLink i link = (chain.setLink i link).moveTo i old := by
      have same : update chain.member i (some old) = chain.member := by
        rw [← found, update_eq_self]
      simp only [Chain.moveTo, Chain.setLink, same]
    refine ⟨?_, .inl (by rw [outcome]; rfl)⟩
    rw [outcome, stays]
    exact inv.first found rfl (before ▸ linked) fun _ => kept.trans result
  · have outcome : chain.poll i task new = (chain.setLink i link).moveTo i new := by
      simp [Chain.poll, polled, result, Result.isPending]
    rw [outcome]
    refine ⟨inv.first found released ?_ ?_, .inr rfl⟩
    · rw [open', after]
      exact linked
    · rw [resolved]
      exact fun waits => absurd waits Bool.false_ne_true

lemma Inv.cancel (before : (standing old).holder = .holding) (after : (standing new).holder = .canceled)
    (resolved : (standing new).waits = false) : Inv standing (chain.cancel i new) ∧
      (chain.cancel i new).member = update chain.member i (some new) := by
  have linked := inv.links i
  rw [holderAt_some found, before] at linked
  obtain ⟨link, _, canceled, linked⟩ := linked.cancel
  have outcome : chain.cancel i new = (chain.setLink i link).moveTo i new := by
    simp only [Chain.cancel, canceled]
  rw [outcome]
  refine ⟨inv.first found released (after ▸ linked) ?_, rfl⟩
  rw [resolved]
  exact nofun

end

lemma Inv.abandon (new : Phase) (found : chain.member i = some old)
    (before : (standing old).released = false) (after : (standing new).released = true)
    (holder : (standing new).holder = (standing old).holder)
    (waits : (standing new).waits = true → (standing old).waits = true) :
    Inv standing (chain.abandon i new) ∧
      (chain.abandon i new).member = update chain.member i (some new) := by
  have linked := inv.links (i + 1)
  rw [releasedAt_some found, before] at linked
  obtain ⟨link, _, abandoned, linked, result⟩ := linked.abandon
  have outcome : chain.abandon i new = (chain.setLink (i + 1) link).moveTo i new := by
    simp only [Chain.abandon, abandoned]
  have here : (chain.setLink (i + 1) link).links (i + 1) = link := update_self ..
  have there : (chain.setLink (i + 1) link).links i = chain.links i :=
    update_of_ne (Nat.succ_ne_self i).symm ..
  rw [outcome]
  refine ⟨inv.moves found (moves_second) ?_ ?_ ?_ ((congrArg _ here).trans result), rfl⟩
  · rw [holder, ← holderAt_some found]
    exact (inv.links i).of_eq there
  · rw [after]
    exact linked.of_eq here
  · intro waiting
    exact (congrArg _ there).trans (inv.waits i old found (waits waiting))

/-- A call joins the chain. -/
lemma Inv.swapPrior (alive : chain.alive = true)
    (released : (standing new).released = false) (holder : (standing new).holder = .holding)
    (waits : (standing new).waits = false) : Inv standing (chain.swapPrior new) := by
  have none := inv.fresh chain.count (Nat.le_refl _)
  have here : (chain.swapPrior new).member chain.count = some new := update_self ..
  have away : ∀ other, other ≠ chain.count →
      (chain.swapPrior new).member other = chain.member other :=
    fun other apart => update_of_ne apart ..
  refine ⟨inv.failed, ?_, ?_, ?_⟩
  · intro other beyond
    have beyond : chain.count + 1 ≤ other := beyond
    rw [away other (by omega)]
    exact inv.fresh other (by omega)
  · intro other
    have linked := inv.links other
    have holders : (chain.swapPrior new).holderAt standing other =
        chain.holderAt standing other := by
      by_cases last : other = chain.count
      · rw [last, holderAt_some here, holder]
        simp [Chain.holderAt, none, alive]
      · have kept : (chain.swapPrior new).alive = true := alive
        simp [Chain.holderAt, away other last, alive, kept]
    have releases : (chain.swapPrior new).releasedAt standing other =
        chain.releasedAt standing other := by
      cases other with
      | zero => rfl
      | succ other =>
        by_cases last : other = chain.count
        · rw [last, releasedAt_some here, released]
          simp [Chain.releasedAt, none]
        · simp only [Chain.releasedAt, away other last]
    rw [holders, releases]
    exact linked
  · intro other phase mem waiting
    by_cases last : other = chain.count
    · rw [last] at mem
      obtain rfl : new = phase := Option.some.inj (here.symm.trans mem)
      rw [waits] at waiting
      cases waiting
    · rw [away other last] at mem
      exact inv.waits other phase mem waiting

lemma Inv.destroy (alive : chain.alive = true) :
    Inv standing chain.destroy ∧ chain.destroy.member = chain.member := by
  have none := inv.fresh chain.count (Nat.le_refl _)
  have linked := inv.links chain.count
  rw [show chain.holderAt standing chain.count = .holding by simp [Chain.holderAt, none, alive]]
    at linked
  obtain ⟨link, _, canceled, linked⟩ := linked.cancel
  have outcome : chain.destroy = { chain.setLink chain.count link with alive := false } := by
    simp only [Chain.destroy, canceled]
  rw [outcome]
  refine ⟨⟨inv.failed, inv.fresh, ?_, ?_⟩, rfl⟩
  · intro other
    by_cases last : other = chain.count
    · subst last
      have holder : Chain.holderAt { chain.setLink chain.count link with alive := false } standing
          chain.count = .canceled := by
        simp [Chain.holderAt, Chain.setLink, none]
      rw [holder]
      have here : (chain.setLink chain.count link).links chain.count = link :=
        update_self ..
      exact linked.of_eq here
    · have holder : Chain.holderAt { chain.setLink chain.count link with alive := false } standing
          other = chain.holderAt standing other := by
        simp [Chain.holderAt, Chain.setLink, last]
      rw [holder]
      have there : (chain.setLink chain.count link).links other = chain.links other :=
        update_of_ne last ..
      exact (inv.links other).of_eq there
  · intro other phase mem waiting
    have apart : other ≠ chain.count := Nat.ne_of_lt (inv.lt_count mem)
    exact (congrArg _ (update_of_ne apart ..)).trans (inv.waits other phase mem waiting)

end

end

/-! ## What a released completer says about the members before -/

/-- The member before has released its completer, if there is one. -/
def Released (released : Nat → Prop) : Nat → Prop
  | 0 => True
  | member + 1 => released member

/-- A member that has released its completer has either been torn out of the chain
or come after the one before it. So the members before a released one are all done,
provided that this holds for those that were torn out. -/
private lemma done_of_released {released torn done : Nat → Prop} (settled : ∀ mem, released mem → done mem)
    (link : ∀ mem, released mem → torn mem ∨ Released released mem) (reached : Released released count)
    (mended : ∀ mem < count, torn mem → ∀ earlier < mem, done earlier) : ∀ earlier < count, done earlier := by
  induction count with
  | zero => exact fun _ below => absurd below (Nat.not_lt_zero _)
  | succ mem ih =>
    have before : ∀ earlier < mem, done earlier := by
      rcases link mem reached with broken | chained
      · exact mended mem (Nat.lt_succ_self mem) broken
      · exact ih chained fun other below => mended other (Nat.lt_succ_of_lt below)
    intro earlier below
    rcases Nat.lt_succ_iff_lt_or_eq.mp below with less | rfl
    · exact before earlier less
    · exact settled _ reached

/-- A call was made, and its member is in such a phase. -/
def Chain.At (p : Phase → Prop) (chain : Chain Phase) (i : Nat) : Prop :=
  ∃ phase, chain.member i = some phase ∧ p phase

/-- A member that has released its completer without waiting for the one before. -/
def Torn (standing : Phase → Standing) (phase : Phase) : Prop :=
  (standing phase).released = true ∧ (standing phase).holder ≠ .returned

section

variable {standing : Phase → Standing} {chain next : Chain Phase} {i : Nat} {old new : Phase}
  {p : Phase → Prop}

lemma releasedAt_iff : chain.releasedAt standing i = true ↔
    Released (chain.At fun phase => (standing phase).released = true) i := by
  cases i with
  | zero => exact ⟨fun _ => trivial, fun _ => rfl⟩
  | succ i =>
    cases found : chain.member i with
    | none | some => simp [Chain.releasedAt, Released, Chain.At, found]

/-- All members before one whose prior promise is resolved are done, provided that
this holds before every torn one. -/
lemma Inv.done_before (inv : Inv standing chain)
    (settled : ∀ phase, (standing phase).released = true → p phase)
    (found : chain.member i = some old) (returned : (standing old).holder = .returned)
    (mended : ∀ mem < i, chain.At (Torn standing) mem →
      ∀ earlier < mem, chain.At p earlier) : ∀ earlier < i, chain.At p earlier := by
  refine done_of_released ?_ ?_ (releasedAt_iff.mp (inv.released found returned)) mended
  · rintro mem ⟨phase, held, released⟩
    exact ⟨phase, held, settled phase released⟩
  · rintro mem ⟨phase, held, released⟩
    by_cases waited : (standing phase).holder = .returned
    · exact .inr (releasedAt_iff.mp (inv.released held waited))
    · exact .inl ⟨phase, held, released, waited⟩

/-- The move of one member keeps a property of phases that its own move keeps. -/
lemma at_of_update (moved : next.member = update chain.member i (some new))
    (found : chain.member i = some old) (kept : p old → p new)
    (before : chain.At p other) : next.At p other := by
  obtain ⟨phase, held, holds⟩ := before
  by_cases here : other = i
  · subst here
    obtain rfl : old = phase := Option.some.inj (found.symm.trans held)
    exact ⟨new, by rw [moved, update_self], kept holds⟩
  · exact ⟨phase, by rw [moved, update_of_ne here, held], holds⟩

/-- After the move of one member, a phase is that of the mover or the same as before. -/
lemma member_of_update (moved : next.member = update chain.member i (some new))
    (held : next.member other = some phase) :
    (other = i ∧ phase = new) ∨ chain.member other = some phase := by
  rw [moved] at held
  by_cases here : other = i
  · subst here
    rw [update_self] at held
    exact .inl ⟨rfl, (Option.some.inj held).symm⟩
  · rw [update_of_ne here] at held
    exact .inr held

end

end FuchsiaSdk.BridgeChain
