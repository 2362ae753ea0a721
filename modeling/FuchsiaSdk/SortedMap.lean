import Mathlib.Order.Defs.LinearOrder
import Mathlib.Data.Finset.Basic
import Mathlib.Data.List.Perm.Basic

/-! Finite maps as association lists in increasing order of their keys. -/
namespace FuchsiaSdk
open List

/-- A finite map with the entries in the order of their keys. -/
structure SortedMap (κ ν : Type) [LinearOrder κ] where
  entries : List (κ × ν)
  sorted : entries.Pairwise fun earlier later => earlier.1 < later.1

namespace SortedMap

variable {κ ν : Type} [LinearOrder κ] {map : SortedMap κ ν} {key other : κ} {v : ν}

def empty : SortedMap κ ν := ⟨[], .nil⟩

def keys (map : SortedMap κ ν) : List κ := map.entries.map Prod.fst

def values (map : SortedMap κ ν) : List ν := map.entries.map Prod.snd

def size (map : SortedMap κ ν) : Nat := map.entries.length

instance : Membership κ (SortedMap κ ν) where
  mem map key := key ∈ map.keys

instance (key : κ) (map : SortedMap κ ν) : Decidable (key ∈ map) :=
  inferInstanceAs (Decidable (key ∈ map.keys))

/-- Put an entry where it belongs, unless there is one already. -/
def insertEntry (key : κ) (v : ν) : List (κ × ν) → List (κ × ν)
  | [] => [(key, v)]
  | entry :: rest =>
    if key < entry.1 then (key, v) :: entry :: rest
    else if key = entry.1 then entry :: rest
    else entry :: insertEntry key v rest

lemma mem_insertEntry {entries : List (κ × ν)}
    (mem : entry ∈ insertEntry key v entries) : entry = (key, v) ∨ entry ∈ entries := by
  induction entries with
  | nil => exact .inl (mem_singleton.mp mem)
  | cons _ _ ih =>
    unfold insertEntry at mem
    split at mem
    · exact mem_cons.mp mem
    split at mem
    · exact .inr mem
    rcases mem_cons.mp mem with rfl | mem
    · exact .inr mem_cons_self
    · exact (ih mem).imp_right (mem_cons_of_mem _)

lemma sorted_insertEntry {entries : List (κ × ν)}
    (sorted : entries.Pairwise fun earlier later => earlier.1 < later.1) :
    (insertEntry key v entries).Pairwise fun earlier later => earlier.1 < later.1 := by
  induction entries with
  | nil => exact pairwise_singleton ..
  | cons _ _ ih =>
    obtain ⟨above, tail⟩ := pairwise_cons.mp sorted
    unfold insertEntry
    split
    next before =>
      refine pairwise_cons.mpr ⟨fun entry member => ?_, sorted⟩
      rcases mem_cons.mp member with rfl | member
      · exact before
      · exact before.trans (above entry member)
    next notBefore =>
      split
      · exact sorted
      rename_i different
      refine pairwise_cons.mpr ⟨fun entry member => ?_, ih tail⟩
      rcases mem_insertEntry member with rfl | member
      · exact lt_of_le_of_ne (not_lt.mp notBefore) (Ne.symm different)
      · exact above entry member

/-- `std::map::emplace`. -/
def emplace (map : SortedMap κ ν) (key : κ) (v : ν) : SortedMap κ ν :=
  ⟨insertEntry key v map.entries, sorted_insertEntry map.sorted⟩

/-- `std::map::find`. -/
def find? (map : SortedMap κ ν) (key : κ) : Option ν :=
  (map.entries.find? fun entry => entry.1 = key).map Prod.snd

/-- `std::map::erase`. -/
def erase (map : SortedMap κ ν) (key : κ) : SortedMap κ ν :=
  ⟨map.entries.filter fun entry => entry.1 ≠ key, map.sorted.filter _⟩

/-- All entries but the first one. -/
def tail (map : SortedMap κ ν) : SortedMap κ ν := ⟨map.entries.tail, map.sorted.tail⟩

lemma mem_of_entry (mem : (key, v) ∈ map.entries) : key ∈ map :=
  List.mem_map.mpr ⟨_, mem, rfl⟩

lemma entry_of_mem (mem : key ∈ map) : ∃ v, (key, v) ∈ map.entries := by
  obtain ⟨entry, found, rfl⟩ := List.mem_map.mp mem
  exact ⟨entry.2, found⟩

lemma eq_empty (none : map.entries = []) : map = empty := by
  obtain ⟨entries, _⟩ := map
  cases none
  rfl

lemma not_mem_empty : key ∉ (empty : SortedMap κ ν) := not_mem_nil

lemma perm_insertEntry {entries : List (κ × ν)} (absent : key ∉ entries.map Prod.fst) :
    (insertEntry key v entries).Perm ((key, v) :: entries) := by
  induction entries with
  | nil => exact .refl _
  | cons first _ ih =>
    obtain ⟨_, absent⟩ := not_or.mp (fun mem => absent (mem_cons.mpr mem))
    unfold insertEntry
    split
    · exact .refl _
    · exact ((ih absent).cons first).trans (.swap ..)

/-- A new entry is added to the others. -/
lemma perm_emplace (absent : key ∉ map) :
    (map.emplace key v).entries.Perm ((key, v) :: map.entries) :=
  perm_insertEntry absent

lemma mem_emplace (absent : key ∉ map) : other ∈ map.emplace key v ↔ other = key ∨ other ∈ map := by
  have perm : (map.emplace key v).keys.Perm (key :: map.keys) :=
    (perm_emplace absent).map Prod.fst
  exact perm.mem_iff.trans mem_cons

lemma not_mem_emplace (absent : key ∉ map) (different : other ≠ key) (free : other ∉ map) :
    other ∉ map.emplace key v :=
  fun mem => ((mem_emplace absent).mp mem).elim different free

lemma values_emplace (absent : key ∉ map) : (map.emplace key v).values.Perm (v :: map.values) :=
  (perm_emplace absent).map Prod.snd

lemma mem_erase : other ∈ map.erase key ↔ other ∈ map ∧ other ≠ key := by
  have entries : ∀ entry, entry ∈ (map.erase key).entries ↔ entry ∈ map.entries ∧ entry.1 ≠ key := by
    simp [erase]
  constructor
  · intro mem
    obtain ⟨entry, found, rfl⟩ := List.mem_map.mp mem
    obtain ⟨found, different⟩ := (entries entry).mp found
    exact ⟨List.mem_map.mpr ⟨entry, found, rfl⟩, different⟩
  · rintro ⟨mem, different⟩
    obtain ⟨entry, found, rfl⟩ := List.mem_map.mp mem
    exact List.mem_map.mpr ⟨entry, (entries entry).mpr ⟨found, different⟩, rfl⟩

/-- The first entry is not repeated. -/
lemma not_mem_tail (first : map.entries = entry :: rest) : entry.1 ∉ map.tail := by
  intro mem
  have sorted := map.sorted
  rw [first] at sorted
  obtain ⟨found, mem, same⟩ := List.mem_map.mp mem
  have mem : found ∈ map.entries.tail := mem
  rw [first] at mem
  have above := (pairwise_cons.mp sorted).1 found mem
  rw [same] at above
  exact lt_irrefl _ above

lemma mem_of_mem_tail (mem : key ∈ map.tail) : key ∈ map := by
  obtain ⟨entry, found, same⟩ := List.mem_map.mp mem
  exact List.mem_map.mpr ⟨entry, List.mem_of_mem_tail found, same⟩

end SortedMap

end FuchsiaSdk
