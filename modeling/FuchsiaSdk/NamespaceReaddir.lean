import FuchsiaSdk.IdCursor
import FuchsiaSdk.Machine
import FuchsiaSdk.Namespace
import Mathlib.Data.List.TakeWhile

/-! Reading the children of an `Intermediate` one by one (`fdio_namespace::Readdir`), while others
bind and unbind. -/
namespace FuchsiaSdk.NamespaceReaddir
open CleanPath LocalVnode Namespace Machine IdCursor List
open Vnode (nameMax)

variable {V : Type}

/-- `LocalVnode::Readdir`: from `lower_bound` on, what is not skipped. -/
def nextEntry (entries : Entries V) (lastSeen : Nat) : Option (Nat × Bytes × V) :=
  (entries.byId.dropWhile (·.1 < lastSeen)).find? fun entry => ¬entry.1 ≤ lastSeen

structure DirentIteratorState where
  lastSeen : Nat := 0
  encounteredDot : Bool := false

def populateEntry (name : Bytes) : Except Status Bytes :=
  if name.length > nameMax then .error .invalidArgs else .ok name

/-- `fdio_namespace::Readdir`. -/
def readdir (entries : Entries V) (st : DirentIteratorState) :
    DirentIteratorState × Except Status Bytes :=
  if ¬st.encounteredDot then ({ st with encounteredDot := true }, populateEntry [dot])
  else
    match nextEntry entries st.lastSeen with
    | none => (st, .error .notFound)
    | some (id, name, _) => ({ st with lastSeen := id }, populateEntry name)

def children (entries : Entries V) : List (Nat × Bytes) :=
  entries.byId.map fun entry => (entry.1, entry.2.1)

/-- An iterator that was begun, with what it returned and the children that have stayed. -/
structure State (V : Type) where
  entries : Entries V := {}
  stayed : List (Nat × Bytes) := children entries
  iterator : DirentIteratorState := {}
  returned : List (Nat × Bytes) := []
  ended : Bool := false

inductive Label (V : Type) where
  | addEntry (name : Bytes) (vn : V)
  | removeEntry (name : Bytes)
  /-- `dirent_iterator_init` or `dirent_iterator_rewind`. -/
  | begin
  | readdir

def State.change (st : State V) (entries : Entries V) : State V :=
  { st with entries, stayed := st.stayed.filter (· ∈ children entries) }

def step (st : State V) : Label V → Option (State V)
  | .addEntry name vn =>
    -- What `Bind` has checked before.
    if name.length ≤ nameMax ∧ st.entries.find name = none then
      some (st.change (st.entries.addEntry name vn))
    else none
  | .removeEntry name => some (st.change (st.entries.removeEntry name))
  | .begin => some { entries := st.entries }
  | .readdir =>
    let (iterator, result) := readdir st.entries st.iterator
    match result with
    | .ok name => some { st with
        iterator
        returned := st.returned ++
          if st.iterator.encounteredDot then [(iterator.lastSeen, name)] else [] }
    | .error status => some { st with iterator, ended := st.ended || status = .notFound }

structure Inv (st : State V) : Prop where
  consistent : st.entries.Consistent
  numbered : 0 < st.entries.nextNodeId
  valid : ∀ child ∈ children st.entries, 0 < child.1 ∧ child.2.length ≤ nameMax
  reads : Reads (children st.entries) st.stayed st.returned st.iterator.lastSeen
  ended : st.ended = true → ∀ child ∈ st.stayed, child.1 ≤ st.iterator.lastSeen

variable {st next : State V} {entries : Entries V}

lemma nextEntry_eq (entries : Entries V) (lastSeen : Nat) :
    (nextEntry entries lastSeen).map (fun entry => (entry.1, entry.2.1)) =
      (ahead (children entries) lastSeen).head? := by
  have skipped : (entries.byId.takeWhile (·.1 < lastSeen)).find?
      (fun entry => ¬entry.1 ≤ lastSeen) = none := by
    refine find?_eq_none.mpr fun entry found => ?_
    have low := mem_takeWhile_imp found
    simp only [decide_eq_true_eq] at low ⊢
    omega
  have whole := congrArg (find? fun entry => ¬entry.1 ≤ lastSeen)
    (takeWhile_append_dropWhile (p := (·.1 < lastSeen)) (l := entries.byId))
  rw [find?_append, skipped, Option.none_or] at whole
  rw [nextEntry, whole, ahead, children, filter_map, head?_map, head?_filter]
  simp only [Nat.not_le]
  rfl

lemma Inv.change (inv : Inv st) (consistent : entries.Consistent) (numbered : 0 < entries.nextNodeId)
    (valid : ∀ child ∈ children entries, 0 < child.1 ∧ child.2.length ≤ nameMax) :
    Inv (st.change entries) where
  consistent
  numbered
  valid
  reads := inv.reads.change (filter_subset_self _) fun _ found =>
    of_decide_eq_true (mem_filter.mp found).2
  ended gone child found := inv.ended gone child (mem_filter.mp found).1

lemma Inv.step (inv : Inv st) (moved : step st label = some next) : Inv next := by
  cases label with
  | addEntry name vn =>
    obtain ⟨⟨short, missing⟩, rfl⟩ := of_guard moved
    refine inv.change (inv.consistent.addEntry (by simp [Entries.lookup, missing]) vn)
      (Nat.succ_pos _) fun child found => ?_
    rw [children, Entries.addEntry, map_append] at found
    rcases mem_append.mp found with old | new
    · exact inv.valid child old
    · rw [mem_singleton.mp new]
      exact ⟨inv.numbered, short⟩
  | removeEntry name =>
    cases moved
    refine inv.change (inv.consistent.removeEntry name) ?_ fun child found => ?_
    · unfold Entries.removeEntry
      split <;> exact inv.numbered
    · obtain ⟨entry, mem, rfl⟩ := mem_map.mp found
      exact inv.valid _ (mem_map_of_mem (inv.consistent.mem_removeEntry.mp mem).1)
  | begin =>
    cases moved
    exact ⟨inv.consistent, inv.numbered, inv.valid, ⟨List.Subset.refl _, .nil,
      fun _ mem => absurd mem not_mem_nil,
      fun child found low => absurd (inv.valid child found).1 (Nat.not_lt.mpr low)⟩,
      fun ended => absurd ended Bool.false_ne_true⟩
  | readdir =>
    have here := nextEntry_eq st.entries st.iterator.lastSeen
    unfold NamespaceReaddir.step readdir at moved
    cases dotted : st.iterator.encounteredDot with
    | false =>
      rw [dotted] at moved
      cases moved
      exact { inv with reads := (append_nil st.returned).symm ▸ inv.reads }
    | true =>
      rw [dotted] at moved
      cases found : nextEntry st.entries st.iterator.lastSeen with
      | none =>
        rw [found] at moved here
        cases moved
        exact { inv with ended := fun _ => inv.reads.passed (head?_eq_none_iff.mp here.symm) }
      | some entry =>
        rw [found] at moved here
        obtain ⟨_, next⟩ := head?_eq_some_iff.mp here.symm
        have short := (inv.valid _ (mem_ahead.mp (next ▸ mem_cons_self)).1).2
        have above := (mem_ahead.mp (next ▸ mem_cons_self)).2
        simp only [populateEntry, if_neg (Nat.not_lt.mpr short)] at moved
        cases moved
        refine { inv with reads := inv.reads.next ?_ next, ended := fun gone child found => ?_ }
        · exact pairwise_map.mpr (pairwise_map.mp inv.consistent.increasing)
        · exact Nat.le_trans (inv.ended gone child found) (Nat.le_of_lt above)

/-- No child is returned twice, and one that stays until the end is returned once. -/
theorem readdir_exact (ran : run step ({} : State V) labels = some final) :
    (final.returned.map Prod.fst).Nodup ∧
      (final.ended = true → ∀ child ∈ final.stayed, final.returned.count child = 1) := by
  have inv : Inv final := by
    refine run_keeps (fun _ _ _ inv => inv.step) ?_ ran
    exact ⟨Entries.consistent_empty, Nat.one_pos, nofun, ⟨nofun, .nil, nofun, nofun⟩, nofun⟩
  refine ⟨pairwise_map.mpr (inv.reads.increasing.imp Nat.ne_of_lt), ?_⟩
  intro ended child found
  exact inv.reads.once found (inv.ended ended child found)

/-- One child is removed and added again meanwhile, another one stays. -/
def changing : List (Label Unit) := [.addEntry [97] (), .addEntry [98] (), .begin, .readdir,
  .readdir, .removeEntry [97], .addEntry [97] (), .readdir, .readdir, .readdir]

theorem readdir_exact_changing :
    ∃ final, run step {} changing = some final ∧ final.returned.count (2, [98]) = 1 := by
  obtain ⟨final, ran, ended, stayed⟩ : ∃ final, run step {} changing = some final ∧
    final.ended = true ∧ final.stayed = [(2, [98])] := ⟨_, rfl, rfl, rfl⟩
  exact ⟨final, ran, (readdir_exact ran).2 ended _ (by rw [stayed]; exact mem_cons_self)⟩

end FuchsiaSdk.NamespaceReaddir
