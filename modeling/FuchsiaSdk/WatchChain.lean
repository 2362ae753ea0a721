import Mathlib.Data.List.Pairwise
import Mathlib.Logic.Function.Basic
import Mathlib.Tactic.Common

/-! Nested watches on an object whose life is a sequence of epochs. A watch is set up while an
epoch lasts, remembers the watch before it and takes its place in the one slot of the object.
When the epoch ends, the watch in the slot is told, and a watch that was told passes it on to
the one before it when it goes. The object is not asked: it may be gone by then. -/
namespace FuchsiaSdk.WatchChain
open List

structure Watch where
  previous : Option Nat := none
  stopped : Bool := false
  deriving DecidableEq, Repr

structure Chain where
  slot : Option Nat := none
  watches : Nat → Watch := fun _ => {}
  /-- The number of watches there have been; the next one is known by it. -/
  count : Nat := 0

namespace Chain

def push (chain : Chain) : Chain where
  slot := some chain.count
  watches := Function.update chain.watches chain.count { previous := chain.slot }
  count := chain.count + 1

def mark (chain : Chain) (id : Nat) : Chain :=
  { chain with watches := Function.update chain.watches id { chain.watches id with stopped := true } }

/-- The epoch ends. -/
def stop (chain : Chain) : Chain :=
  match chain.slot with
  | none => chain
  | some id => { chain.mark id with slot := none }

/-- A watch goes. -/
def pop (chain : Chain) (id : Nat) : Chain :=
  if (chain.watches id).stopped then
    match (chain.watches id).previous with
    | none => chain
    | some previous => chain.mark previous
  else { chain with slot := (chain.watches id).previous }

end Chain

/-- A watch that is set up, with the epoch it was set up in. -/
abbrev Watcher := Nat × Nat

/-- The watch right below one of the given epoch, if it is of the same epoch. -/
def below (epoch : Nat) : List Watcher → Option Nat
  | [] => none
  | watcher :: _ => if watcher.2 = epoch then some watcher.1 else none

/-- Every watch points to the one below it in its epoch. Of the watches of a past epoch, the
uppermost has been told. -/
def Linked (watches : Nat → Watch) (current : Option Nat) : Option Nat → List Watcher → Prop
  | _, [] => True
  | above, watcher :: rest =>
    watches watcher.1 = ⟨below watcher.2 rest, decide (current ≠ some watcher.2 ∧ above ≠ some watcher.2)⟩ ∧
      Linked watches current (some watcher.2) rest

/-- The watches that are set up, uppermost first, while `current` is the epoch. -/
structure Watches (chain : Chain) (current : Option Nat) (watchers : List Watcher) : Prop where
  linked : Linked chain.watches current none watchers
  slot : chain.slot = current.bind fun epoch => below epoch watchers
  distinct : watchers.Pairwise fun upper lower => upper.1 ≠ lower.1
  known : ∀ watcher ∈ watchers, watcher.1 < chain.count
  ordered : watchers.Pairwise fun upper lower => lower.2 ≤ upper.2
  latest : ∀ epoch, current = some epoch → ∀ watcher ∈ watchers, watcher.2 ≤ epoch

variable {chain : Chain} {current : Option Nat} {watchers : List Watcher} {id epoch : Nat}

lemma watches_nil (empty : chain.slot = none) : Watches chain current [] where
  linked := trivial
  slot := by cases current <;> exact empty
  distinct := .nil
  known _ mem := absurd mem not_mem_nil
  ordered := .nil
  latest _ _ _ mem := absurd mem not_mem_nil

lemma linked_congr (same : ∀ watcher ∈ watchers, watches' watcher.1 = watches watcher.1)
    (epochs : ∀ watcher ∈ watchers, current' = some watcher.2 ↔ current = some watcher.2)
    (linked : Linked watches current above watchers) : Linked watches' current' above watchers := by
  induction watchers generalizing above with
  | nil => trivial
  | cons watcher _ ih =>
    refine ⟨?_, ih (fun other mem => same other (mem_cons_of_mem _ mem))
      (fun other mem => epochs other (mem_cons_of_mem _ mem)) linked.2⟩
    rw [same watcher mem_cons_self, linked.1]
    simp only [ne_eq, epochs watcher mem_cons_self]

/-- Below the uppermost watch of the epoch that ends nothing changes. -/
lemma linked_end (ordered : watchers.Pairwise fun upper lower => lower.2 ≤ upper.2)
    (latest : ∀ watcher ∈ watchers, watcher.2 ≤ epoch)
    (linked : Linked watches (some epoch) (some epoch) watchers) :
    Linked watches none (some epoch) watchers := by
  induction watchers with
  | nil => trivial
  | cons watcher rest ih =>
    obtain ⟨lower, ordered⟩ := pairwise_cons.mp ordered
    by_cases same : watcher.2 = epoch
    · obtain ⟨here, linked⟩ := linked
      rw [same] at linked
      refine ⟨?_, ?_⟩
      · rw [here, same]
        simp
      · rw [same]
        exact ih ordered (fun other member => latest other (mem_cons_of_mem _ member)) linked
    · have past : ∀ other ∈ watcher :: rest, other.2 ≠ epoch := by
        intro other member
        have first : watcher.2 < epoch := Nat.lt_of_le_of_ne (latest watcher mem_cons_self) same
        rcases mem_cons.mp member with rfl | member
        · exact same
        · exact Nat.ne_of_lt (Nat.lt_of_le_of_lt (lower other member) first)
      refine linked_congr (fun _ _ => rfl) (fun other member => ?_) linked
      exact iff_of_false (by simp) fun now => past other member (Option.some.inj now).symm

/-- What is above matters to the first watch only. -/
lemma linked_above (same : ∀ watcher ∈ watchers.head?, current = some watcher.2 ∨
      (above = some watcher.2 ↔ above' = some watcher.2))
    (linked : Linked watches current above watchers) : Linked watches current above' watchers := by
  cases watchers with
  | nil => trivial
  | cons watcher =>
    refine ⟨?_, linked.2⟩
    rw [linked.1]
    rcases same watcher rfl with now | same
    · simp [now]
    · simp only [ne_eq, same]

lemma below_past (past : ∀ watcher ∈ watchers, watcher.2 ≠ epoch) : below epoch watchers = none := by
  cases watchers with
  | nil => rfl
  | cons watcher => exact if_neg (past watcher mem_cons_self)

lemma Watches.push (watches : Watches chain (some epoch) watchers) :
    Watches chain.push (some epoch) ((chain.count, epoch) :: watchers) where
  linked := by
    have apart : ∀ watcher ∈ watchers, watcher.1 ≠ chain.count := fun watcher member =>
      Nat.ne_of_lt (watches.known watcher member)
    refine ⟨?_, ?_⟩
    · have slot := watches.slot
      simp [Chain.push, slot]
    · have linked : Linked chain.watches (some epoch) (some epoch) watchers :=
        linked_above (fun watcher _ => by by_cases now : epoch = watcher.2 <;> simp [now]) watches.linked
      refine linked_congr (fun watcher member => ?_) (fun _ _ => Iff.rfl) linked
      exact Function.update_of_ne (apart watcher member) ..
  slot := by simp [Chain.push, below]
  distinct := pairwise_cons.mpr
    ⟨fun watcher member => (Nat.ne_of_lt (watches.known watcher member)).symm, watches.distinct⟩
  known := by
    intro watcher member
    rcases mem_cons.mp member with rfl | member
    · exact Nat.lt_succ_self _
    · exact Nat.lt_succ_of_lt (watches.known watcher member)
  ordered := pairwise_cons.mpr ⟨fun watcher member => watches.latest epoch rfl watcher member, watches.ordered⟩
  latest := by
    intro now same watcher member
    cases same
    rcases mem_cons.mp member with rfl | member
    · exact Nat.le_refl _
    · exact watches.latest _ rfl watcher member

lemma Watches.stopped_iff (watches : Watches chain current ((id, epoch) :: watchers)) :
    (chain.watches id).stopped = true ↔ current ≠ some epoch := by
  rw [watches.linked.1]
  simp

/-- The epoch ends for all watches. -/
lemma Watches.stop_epoch (watches : Watches chain (some epoch) watchers) :
    Watches chain.stop none watchers := by
  obtain ⟨linked, slot, distinct, known, ordered, latest⟩ := watches
  simp only [Option.bind_some] at slot
  cases watchers with
  | nil =>
    rw [Chain.stop, slot]
    exact watches_nil slot
  | cons watcher rest =>
    obtain ⟨id, first⟩ := watcher
    obtain ⟨apart, -⟩ := pairwise_cons.mp distinct
    obtain ⟨lower, ordered'⟩ := pairwise_cons.mp ordered
    have latest := latest epoch rfl
    by_cases same : first = epoch
    · subst same
      rw [below, if_pos rfl] at slot
      rw [Chain.stop, slot]
      refine ⟨⟨?_, ?_⟩, rfl, distinct, known, ordered, nofun⟩
      · simp [Chain.mark, linked.1]
      · have ended := linked_end ordered' (fun other member => latest other (mem_cons_of_mem _ member)) linked.2
        refine linked_congr (fun other member => ?_) (fun _ _ => Iff.rfl) ended
        exact Function.update_of_ne (apart other member).symm ..
    · have past : ∀ other ∈ (id, first) :: rest, other.2 ≠ epoch := by
        have before : first < epoch := Nat.lt_of_le_of_ne (latest _ mem_cons_self) same
        intro other member
        rcases mem_cons.mp member with rfl | member
        · exact same
        · exact Nat.ne_of_lt (Nat.lt_of_le_of_lt (lower other member) before)
      rw [below_past past] at slot
      rw [Chain.stop, slot]
      refine ⟨?_, slot, distinct, known, ordered, nofun⟩
      refine linked_congr (fun _ _ => rfl) (fun other member => ?_) linked
      exact iff_of_false (by simp) fun now => past other member (Option.some.inj now).symm

lemma Watches.stop (watches : Watches chain current watchers) : Watches chain.stop none watchers := by
  cases current with
  | some => exact watches.stop_epoch
  | none =>
    have slot : chain.slot = none := watches.slot
    rwa [Chain.stop, slot]

/-- A new epoch begins. -/
lemma Watches.start (watches : Watches chain none watchers) (new : ∀ watcher ∈ watchers, watcher.2 < epoch) :
    Watches chain (some epoch) watchers where
  linked := linked_congr (fun _ _ => rfl)
    (fun watcher mem => iff_of_false
      (fun now => Nat.ne_of_lt (new watcher mem) (Option.some.inj now).symm) (by simp)) watches.linked
  slot := by
    rw [watches.slot, Option.bind_some, below_past fun watcher mem => Nat.ne_of_lt (new watcher mem)]
    rfl
  distinct := watches.distinct
  known := watches.known
  ordered := watches.ordered
  latest := by
    intro now same watcher mem
    cases same
    exact Nat.le_of_lt (new watcher mem)

lemma Watches.pop (watches : Watches chain current ((id, epoch) :: watchers)) :
    Watches (chain.pop id) current watchers := by
  have told := watches.stopped_iff
  obtain ⟨⟨here, linked⟩, slot, distinct, known, ordered, latest⟩ := watches
  obtain ⟨-, distinct⟩ := pairwise_cons.mp distinct
  obtain ⟨lower, ordered⟩ := pairwise_cons.mp ordered
  have known := fun watcher mem => known watcher (mem_cons_of_mem _ mem)
  have latest' := fun now same watcher mem => latest now same watcher (mem_cons_of_mem _ mem)
  unfold Chain.pop
  by_cases present : current = some epoch
  · rw [if_neg (fun stopped => told.mp stopped present), here]
    refine ⟨?_, ?_, distinct, known, ordered, latest'⟩
    · refine linked_above (fun watcher _ => ?_) linked
      by_cases same : epoch = watcher.2
      · exact Or.inl (present.trans (congrArg some same))
      · exact Or.inr (by simp [same])
    · rw [present]
      rfl
  · rw [if_pos (told.mpr present), here]
    -- the watches of the current epoch, if there are any, are not below this one
    have slot : chain.slot = current.bind fun epoch => below epoch watchers := by
      rw [slot]
      cases current with
      | none => rfl
      | some now =>
        have apart : epoch ≠ now := fun same => present (congrArg some same.symm)
        have before : epoch < now := Nat.lt_of_le_of_ne (latest now rfl _ mem_cons_self) apart
        rw [Option.bind_some, Option.bind_some, below, if_neg apart, below_past]
        exact fun watcher mem => Nat.ne_of_lt (Nat.lt_of_le_of_lt (lower watcher mem) before)
    cases watchers with
    | nil => exact watches_nil (slot.trans (by cases current <;> rfl))
    | cons watcher =>
      by_cases same : watcher.2 = epoch
      · simp only [below, if_pos same]
        obtain ⟨apart, -⟩ := pairwise_cons.mp distinct
        refine ⟨⟨?_, ?_⟩, slot, distinct, known, ordered, latest'⟩
        · have first := linked.1
          rw [same] at first ⊢
          simp [Chain.mark, first, present]
        · refine linked_congr (fun other mem => ?_) (fun _ _ => Iff.rfl) linked.2
          exact Function.update_of_ne (apart other mem).symm ..
      · simp only [below, if_neg same]
        refine ⟨linked_above (fun other first => ?_) linked, slot, distinct, known, ordered, latest'⟩
        cases first
        exact Or.inr (iff_of_false (fun now => same (Option.some.inj now).symm) (by simp))

end FuchsiaSdk.WatchChain
