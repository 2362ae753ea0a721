import FuchsiaSdk.Memory

/-! Objects that lie one after the other in a memory, each extended to the next
multiple of eight with zero bytes. -/
namespace FuchsiaSdk.Tiling
open Memory

structure Extent where
  position : Nat
  size : Nat
  deriving DecidableEq, Repr

/-- Where the extent ends when it is extended to the alignment. -/
def Extent.stop (extent : Extent) : Nat := align (extent.position + extent.size)

/-- The bytes that the alignment adds are zero. -/
def Extent.ZeroPadded (memory : Memory) (extent : Extent) : Prop :=
  ∀ addr, extent.position + extent.size ≤ addr → addr < extent.stop → memory addr = 0

/-- The extents tile a range. -/
def Tiles (memory : Memory) : (start : Nat) → List Extent → (stop : Nat) → Prop
  | start, [], stop => start = stop
  | start, extent :: rest, stop =>
    extent.position = start ∧ extent.ZeroPadded memory ∧ Tiles memory extent.stop rest stop

variable {memory left right : Memory} {start middle stop : Nat} {extents more : List Extent}
  {extent : Extent}

lemma le_stop (extent : Extent) : extent.position + extent.size ≤ extent.stop := le_align _

lemma Tiles.le (tiles : Tiles memory start extents stop) : start ≤ stop := by
  induction extents generalizing start with
  | nil => exact Nat.le_of_eq tiles
  | cons extent _ ih =>
    obtain ⟨rfl, _, tiles⟩ := tiles
    have first := le_stop extent
    have others := ih tiles
    omega

lemma Tiles.append (first : Tiles memory start extents middle)
    (second : Tiles memory middle more stop) : Tiles memory start (extents ++ more) stop := by
  induction extents generalizing start with
  | nil =>
    cases first
    exact second
  | cons _ _ ih =>
    obtain ⟨here, padded, first⟩ := first
    exact ⟨here, padded, ih first⟩

/-- Only the bytes of the range matter. -/
lemma Tiles.congr (tiles : Tiles left start extents stop) (agree : AgreeOn start stop left right) :
    Tiles right start extents stop := by
  induction extents generalizing start with
  | nil => exact tiles
  | cons extent _ ih =>
    obtain ⟨rfl, padded, tiles⟩ := tiles
    have first := le_stop extent
    have others := tiles.le
    refine ⟨rfl, fun addr low high => ?_, ih tiles (agree.mono (by omega) (Nat.le_refl _))⟩
    rw [← agree addr (by omega) (by omega)]
    exact padded addr low high

section

variable (tiles : Tiles memory start extents stop)
include tiles

lemma Tiles.mem (mem : extent ∈ extents) :
    start ≤ extent.position ∧ extent.stop ≤ stop ∧ extent.ZeroPadded memory := by
  induction extents generalizing start with
  | nil => cases mem
  | cons head _ ih =>
    obtain ⟨rfl, padded, tiles⟩ := tiles
    rcases List.mem_cons.mp mem with rfl | mem
    · exact ⟨Nat.le_refl _, tiles.le, padded⟩
    obtain ⟨_, below, zero⟩ := ih tiles mem
    have first := le_stop head
    exact ⟨by omega, below, zero⟩

/-- Each extent starts where the one before it stops. -/
lemma Tiles.consecutive : List.IsChain (fun before after => after.position = before.stop) extents := by
  induction extents generalizing start with
  | nil => exact .nil
  | cons _ rest ih =>
    obtain ⟨_, _, tiles⟩ := tiles
    cases rest with
    | nil => exact .singleton _
    | cons _ rest => exact .cons_cons tiles.1 (ih tiles)

lemma Tiles.disjoint : extents.Pairwise fun before after => before.stop ≤ after.position := by
  induction extents generalizing start with
  | nil => exact .nil
  | cons _ _ ih =>
    obtain ⟨_, _, tiles⟩ := tiles
    exact .cons (fun other mem => (tiles.mem mem).1) (ih tiles)

/-- Together the extents are the range. -/
lemma Tiles.covers (addr : Nat) : (start ≤ addr ∧ addr < stop) ↔
      ∃ extent ∈ extents, extent.position ≤ addr ∧ addr < extent.stop := by
  constructor
  · intro inside
    induction extents generalizing start with
    | nil =>
      have empty : start = stop := tiles
      omega
    | cons extent _ ih =>
      obtain ⟨rfl, _, tiles⟩ := tiles
      by_cases here : addr < extent.stop
      · exact ⟨extent, List.mem_cons_self, inside.1, here⟩
      · obtain ⟨other, mem, found⟩ := ih tiles ⟨Nat.not_lt.mp here, inside.2⟩
        exact ⟨other, List.mem_cons_of_mem _ mem, found⟩
  · rintro ⟨extent, mem, above, below⟩
    have bounds := tiles.mem mem
    exact ⟨Nat.le_trans bounds.1 above, Nat.lt_of_lt_of_le below bounds.2.1⟩

end

end FuchsiaSdk.Tiling
