import Mathlib.Data.List.Nodup

/-! A collection that is read in the order of its members' ids, from the last id that was read
on, while members come and go. -/
namespace FuchsiaSdk.IdCursor
open List

variable {α : Type} {present stayed listed rest : List (Nat × α)} {member : Nat × α}
  {last : Nat}

def Increasing (members : List (Nat × α)) : Prop :=
  members.Pairwise fun one other => one.1 < other.1

/-- What is still to be read. -/
def ahead (present : List (Nat × α)) (last : Nat) : List (Nat × α) :=
  present.filter fun member => last < member.1

/-- What was listed, and what has stayed since reading began. -/
structure Reads (present stayed listed : List (Nat × α)) (last : Nat) : Prop where
  here : stayed ⊆ present
  increasing : Increasing listed
  read : ∀ member ∈ listed, member.1 ≤ last
  complete : ∀ member ∈ stayed, member.1 ≤ last → member ∈ listed

lemma mem_ahead : member ∈ ahead present last ↔ member ∈ present ∧ last < member.1 := by
  simp [ahead]

lemma ahead_next (increasing : Increasing present) (next : ahead present last = member :: rest) :
    ahead present member.1 = rest := by
  have sorted : Increasing (member :: rest) := next ▸ increasing.filter _
  have above := (mem_ahead.mp (next ▸ mem_cons_self)).2
  have again : ahead present member.1 = ahead (ahead present last) member.1 := by
    unfold ahead
    rw [filter_filter]
    refine filter_congr fun other _ => ?_
    rw [Bool.eq_iff_iff, Bool.and_eq_true]
    simp only [decide_eq_true_eq]
    omega
  rw [again, next, ahead, filter_cons_of_neg (by simp), filter_eq_self]
  exact fun other found => decide_eq_true ((pairwise_cons.mp sorted).1 other found)

/-- The next member is read. -/
lemma Reads.next (reads : Reads present stayed listed last) (increasing : Increasing present)
    (next : ahead present last = member :: rest) : Reads present stayed (listed ++ [member]) member.1 := by
  have later := ahead_next increasing next
  have above := (mem_ahead.mp (next ▸ mem_cons_self)).2
  refine ⟨reads.here, pairwise_append.mpr ⟨reads.increasing, pairwise_singleton ..,
    fun old found new same => ?_⟩, fun old found => ?_, fun old found passed => ?_⟩
  · rw [mem_singleton.mp same]
    exact Nat.lt_of_le_of_lt (reads.read old found) above
  · rcases mem_append.mp found with found | same
    · exact Nat.le_trans (reads.read old found) (Nat.le_of_lt above)
    · exact Nat.le_of_eq (congrArg Prod.fst (mem_singleton.mp same))
  · refine mem_append.mpr ?_
    by_cases before : old.1 ≤ last
    · exact .inl (reads.complete old found before)
    have kept : old ∈ member :: rest :=
      next ▸ mem_ahead.mpr ⟨reads.here found, Nat.not_le.mp before⟩
    rcases mem_cons.mp kept with rfl | beyond
    · exact .inr mem_cons_self
    · rw [← later] at beyond
      exact absurd passed (Nat.not_le.mpr (mem_ahead.mp beyond).2)

/-- Members come and go. -/
lemma Reads.change (reads : Reads present stayed listed last) (kept : stayed' ⊆ stayed)
    (here : stayed' ⊆ present') : Reads present' stayed' listed last :=
  { reads with here, complete := fun member found => reads.complete member (kept found) }

/-- Nothing is listed twice, and what has stayed and was passed is listed. -/
lemma Reads.once [BEq α] [LawfulBEq α] (reads : Reads present stayed listed last)
    (found : member ∈ stayed) (passed : member.1 ≤ last) : listed.count member = 1 := by
  have distinct : listed.Nodup :=
    reads.increasing.imp fun less => ne_of_apply_ne Prod.fst (Nat.ne_of_lt less)
  exact count_eq_one_of_mem distinct (reads.complete member found passed)

/-- At the end all that has stayed was passed. -/
lemma Reads.passed (reads : Reads present stayed listed last) (ended : ahead present last = []) :
    ∀ member ∈ stayed, member.1 ≤ last := fun _ found =>
  Nat.not_lt.mp fun later => not_mem_nil (ended ▸ mem_ahead.mpr ⟨reads.here found, later⟩)

end FuchsiaSdk.IdCursor
