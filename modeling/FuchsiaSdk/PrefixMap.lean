import Mathlib.Data.List.Basic
import Mathlib.Data.List.Pairwise
import Mathlib.Tactic.Common

/-! Finite maps whose keys are lists, none of which is a prefix of another: at
most one key lies on the way to any list. -/
namespace FuchsiaSdk
open List

/-- Neither list is a prefix of the other. -/
def Apart {α : Type*} (left right : List α) : Prop := ¬left <+: right ∧ ¬right <+: left

instance {α : Type*} [DecidableEq α] (left right : List α) : Decidable (Apart left right) :=
  inferInstanceAs (Decidable (_ ∧ _))

structure PrefixMap (α β : Type*) where
  entries : List (List α × β)
  free : entries.Pairwise fun left right => Apart left.1 right.1

namespace PrefixMap

variable {α β : Type*} {map : PrefixMap α β} {key rest : List α} {v : β}

def empty : PrefixMap α β := ⟨[], List.Pairwise.nil⟩

/-- A key that may be added. -/
def Clear (map : PrefixMap α β) (key : List α) : Prop := ∀ entry ∈ map.entries, Apart key entry.1

def insert (map : PrefixMap α β) (key : List α) (v : β) (clear : map.Clear key) :
    PrefixMap α β :=
  ⟨(key, v) :: map.entries, List.pairwise_cons.mpr ⟨clear, map.free⟩⟩

/-- Two comparable keys of the map belong to one entry. -/
lemma mem_unique (map : PrefixMap α β) (first : left ∈ map.entries)
    (second : right ∈ map.entries) (comparable : left.1 <+: right.1 ∨ right.1 <+: left.1) : left = right := by
  by_contra different
  have symmetric : Std.Symm fun left right : List α × β => Apart left.1 right.1 :=
    ⟨fun _ _ apart => ⟨apart.2, apart.1⟩⟩
  have apart := map.free.forall first second different
  rcases comparable with below | above
  · exact apart.1 below
  · exact apart.2 above

section Decidable

variable [DecidableEq α]

instance (map : PrefixMap α β) (key : List α) : Decidable (map.Clear key) :=
  inferInstanceAs (Decidable (∀ entry ∈ map.entries, Apart key entry.1))

def erase (map : PrefixMap α β) (key : List α) : PrefixMap α β :=
  ⟨map.entries.filter fun entry => decide (entry.1 ≠ key), map.free.filter _⟩

def find? (map : PrefixMap α β) (key : List α) : Option β :=
  (map.entries.find? fun entry => decide (entry.1 = key)).map Prod.snd

/-- The value whose key lies on the way to a list, and what remains of it. -/
def resolve (map : PrefixMap α β) (key : List α) : Option (β × List α) :=
  (map.entries.find? fun entry => decide (entry.1 <+: key)).map fun entry =>
    (entry.2, key.drop entry.1.length)

lemma find?_insert (clear : map.Clear key) (other : List α) : (map.insert key v clear).find? other =
      if other = key then some v else map.find? other := by
  by_cases same : other = key
  · simp [find?, insert, same]
  · have apart : ¬key = other := fun equal => same equal.symm
    simp [find?, insert, same, apart]

lemma find?_erase (other : List α) :
    (map.erase key).find? other = if other = key then none else map.find? other := by
  by_cases same : other = key
  · subst same
    simp [find?, erase, find?_filter]
  rw [if_neg same]
  unfold find? erase
  rw [find?_filter]
  congr 2
  funext entry
  by_cases here : entry.1 = other
  · simp [here, same]
  · simp [here]

lemma find?_eq_some_iff : map.find? key = some v ↔ (key, v) ∈ map.entries := by
  constructor
  · intro found
    obtain ⟨entry, located, rfl⟩ := Option.map_eq_some_iff.mp found
    have same : entry.1 = key := by simpa using find?_some located
    rw [← same]
    exact mem_of_find?_eq_some located
  · intro mem
    cases located : map.entries.find? fun entry => decide (entry.1 = key) with
    | none => simpa using find?_eq_none.mp located _ mem
    | some entry =>
      have same : entry.1 = key := by simpa using find?_some located
      have only := map.mem_unique (mem_of_find?_eq_some located) mem
        (Or.inl (same ▸ prefix_rfl))
      simp [find?, located, only]

lemma clear_iff : map.Clear key ↔ ∀ other v, map.find? other = some v → Apart key other := by
  constructor
  · intro clear other v found
    exact clear _ (find?_eq_some_iff.mp found)
  · intro apart entry mem
    exact apart entry.1 entry.2 (find?_eq_some_iff.mpr mem)

lemma resolve_eq_some_iff :
    map.resolve key = some (v, rest) ↔ ∃ front, map.find? front = some v ∧ key = front ++ rest := by
  constructor
  · intro resolved
    obtain ⟨entry, located, same⟩ := Option.map_eq_some_iff.mp resolved
    obtain ⟨rfl, rfl⟩ := Prod.mk.inj same
    have onWay : entry.1 <+: key := by simpa using find?_some located
    refine ⟨entry.1, find?_eq_some_iff.mpr (mem_of_find?_eq_some located), ?_⟩
    exact (prefix_iff_eq_append.mp onWay).symm
  · rintro ⟨front, found, rfl⟩
    have mem := find?_eq_some_iff.mp found
    cases located : map.entries.find? fun entry => decide (entry.1 <+: front ++ rest) with
    | none => simpa using find?_eq_none.mp located _ mem
    | some entry =>
      have onWay : entry.1 <+: front ++ rest := by simpa using find?_some located
      have nested := prefix_or_prefix_of_prefix onWay (prefix_append front rest)
      have only := map.mem_unique (mem_of_find?_eq_some located) mem nested
      simp [resolve, located, only]

end Decidable

end PrefixMap

end FuchsiaSdk
