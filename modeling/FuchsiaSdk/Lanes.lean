import FuchsiaSdk.Memory
import Mathlib.Algebra.BigOperators.Fin
import Mathlib.Algebra.Order.BigOperators.Group.Finset
import Mathlib.Order.Lattice.Nat

/-! Vector registers of byte lanes, and the documented meaning of the SSSE3, AVX2
and NEON intrinsics on them. The lane with the lowest index has the lowest address. -/
namespace FuchsiaSdk

abbrev Lanes (count : Nat) : Type := Fin count → UInt8

namespace Lanes
open Memory

variable {count : Nat}

/-! ## What every instruction set has -/

def dup (v : UInt8) : Lanes count := fun _ => v

def or (left right : Lanes count) : Lanes count := fun lane => left lane ||| right lane

def and (left right : Lanes count) : Lanes count := fun lane => left lane &&& right lane

def xor (left right : Lanes count) : Lanes count := fun lane => left lane ^^^ right lane

/-- Unsigned subtraction that stops at zero. -/
def saturatingSub (left right : Lanes count) : Lanes count := fun lane =>
  .ofNat ((left lane).toNat - (right lane).toNat)

def loadu (memory : Memory) (pos : Nat) : Lanes count := fun lane =>
  memory (pos + lane.val)

def storeu (memory : Memory) (pos : Nat) (vector : Lanes count) : Memory :=
  store memory pos (List.ofFn vector)

/-! ## SSSE3 and AVX2 -/

/-- A byte read as a two's complement number. -/
def signed (byte : UInt8) : Int :=
  if byte.toNat < 0x80 then byte.toNat else byte.toNat - 0x100

def cmpgtEpi8 (left right : Lanes count) : Lanes count := fun lane =>
  if signed (right lane) < signed (left lane) then 0xFF else 0

/-- One when the registers have no bit in common. -/
def testz (left right : Lanes count) : Nat :=
  if ∀ lane, left lane &&& right lane = 0 then 1 else 0

/-- The top bit of each lane. -/
def movemaskEpi8 (vector : Lanes count) : Nat :=
  ∑ lane : Fin count, (vector lane).toNat / 0x80 * 2 ^ lane.val

/-- The byte at an index, zero past the end. -/
def byteAt (vector : Lanes count) (i : Nat) : UInt8 :=
  if inside : i < count then vector ⟨i, inside⟩ else 0

/-- Every pair of lanes is shifted as one word. -/
def srliEpi16 (vector : Lanes count) (amount : Nat) : Lanes count := fun lane =>
  let low := lane.val / 2 * 2
  let shifted := ofLittleEndian [vector.byteAt low, vector.byteAt (low + 1)] >>> amount
  .ofNat (if lane.val = low then shifted % 0x100 else shifted / 0x100 % 0x100)

/-- The upper register is put above the lower one, and both are shifted right. -/
def alignrEpi8 (upper lower : Lanes 16) (amount : Nat) : Lanes 16 := fun lane =>
  let i := lane.val + amount
  if i < 16 then lower.byteAt i else upper.byteAt (i - 16)

def shuffleEpi8 (table indexes : Lanes 16) : Lanes 16 := fun lane =>
  if 0x80 ≤ (indexes lane).toNat then 0 else table.byteAt ((indexes lane).toNat % 16)

def low (vector : Lanes 32) : Lanes 16 := fun lane => vector.byteAt lane.val

def high (vector : Lanes 32) : Lanes 16 := fun lane => vector.byteAt (16 + lane.val)

def ofHalves (low high : Lanes 16) : Lanes 32 := fun lane =>
  if lane.val < 16 then low.byteAt lane.val else high.byteAt (lane.val - 16)

/-- The AVX2 forms work on each half alone. -/
def alignr256Epi8 (upper lower : Lanes 32) (amount : Nat) : Lanes 32 :=
  ofHalves (alignrEpi8 upper.low lower.low amount) (alignrEpi8 upper.high lower.high amount)

def shuffle256Epi8 (table indexes : Lanes 32) : Lanes 32 :=
  ofHalves (shuffleEpi8 table.low indexes.low) (shuffleEpi8 table.high indexes.high)

/-- The half that four bits of a control select. -/
def selectHalf (first second : Lanes 32) (control : Nat) : Lanes 16 :=
  if control.testBit 3 then dup 0
  else
    match control % 4 with
    | 0 => first.low
    | 1 => first.high
    | 2 => second.low
    | _ => second.high

def permute2x128 (first second : Lanes 32) (control : Nat) : Lanes 32 :=
  ofHalves (selectHalf first second control) (selectHalf first second (control >>> 4))

/-! ## NEON -/

def vcgtqU8 (left right : Lanes count) : Lanes count := fun lane =>
  if (right lane).toNat < (left lane).toNat then 0xFF else 0

def vshrqNU8 (vector : Lanes count) (amount : Nat) : Lanes count := fun lane =>
  .ofNat ((vector lane).toNat >>> amount)

/-- The lanes from `amount` on of the one register followed by the other. -/
def vextqU8 (lower upper : Lanes 16) (amount : Nat) : Lanes 16 := fun lane =>
  let i := lane.val + amount
  if i < 16 then lower.byteAt i else upper.byteAt (i - 16)

/-- An index past the table gives zero. -/
def vqtbl1qU8 (table indexes : Lanes 16) : Lanes 16 := fun lane =>
  table.byteAt (indexes lane).toNat

def vmaxvqU8 (vector : Lanes count) : Nat := Finset.univ.sup fun lane => (vector lane).toNat

/-! ## Lane by lane -/

section

variable {vector : Lanes count} {lane : Fin count}

lemma byteAt_eq : vector.byteAt lane.val = vector lane :=
  dif_pos lane.isLt

lemma byteAt_lt (inside : i < count) : vector.byteAt i = vector ⟨i, inside⟩ :=
  dif_pos inside

lemma ofFn_loadu : List.ofFn (loadu memory pos : Lanes count) = load memory pos count := by
  apply List.ext_getElem?
  intro _
  rw [List.getElem?_ofFn, getElem?_load]
  rfl

lemma testz_self_ne_zero : testz vector vector ≠ 0 ↔ ∀ lane, vector lane = 0 := by
  unfold testz
  simp only [UInt8.and_self]
  split
  next zero => exact ⟨fun _ => zero, fun _ => Nat.one_ne_zero⟩
  next nonzero => exact ⟨fun absurd' => absurd rfl absurd', fun zero => absurd zero nonzero⟩

lemma movemaskEpi8_eq_zero : movemaskEpi8 vector = 0 ↔ ∀ lane, (vector lane).toNat < 0x80 := by
  unfold movemaskEpi8
  rw [Finset.sum_eq_zero_iff]
  refine ⟨fun zero lane => ?_, fun ascii lane _ => ?_⟩
  · rcases Nat.mul_eq_zero.mp (zero lane (Finset.mem_univ lane)) with _ | power
    · omega
    · exact absurd power (Nat.two_pow_pos _).ne'
  · rw [Nat.div_eq_of_lt (ascii lane), Nat.zero_mul]

lemma vmaxvqU8_lt (positive : 0 < bound) : vmaxvqU8 vector < bound ↔ ∀ lane, (vector lane).toNat < bound := by
  unfold vmaxvqU8
  rw [Finset.sup_lt_iff positive]
  exact ⟨fun less lane => less lane (Finset.mem_univ lane), fun less lane _ => less lane⟩

lemma vmaxvqU8_eq_zero : vmaxvqU8 vector = 0 ↔ ∀ lane, vector lane = 0 := by
  rw [← Nat.lt_one_iff, vmaxvqU8_lt Nat.one_pos]
  refine forall_congr' fun lane => ?_
  rw [Nat.lt_one_iff, ← UInt8.toNat_inj]
  rfl

lemma and_low_half (v : Nat) : v &&& 0xF = v % 16 :=
  Nat.and_two_pow_sub_one_eq_mod v 4

/-- The bits shifted in from the next lane are those the mask takes away. -/
lemma srliEpi16_and : (srliEpi16 vector 4).and (dup 0x0F) lane = .ofNat ((vector lane).toNat / 16) := by
  have bound := (vector lane).toNat_lt
  apply UInt8.toNat.inj
  change ((srliEpi16 vector 4 lane) &&& 0x0F).toNat = _
  rw [UInt8.toNat_and, show (0x0F : UInt8).toNat = 0xF from rfl, and_low_half, srliEpi16]
  rw [UInt8.toNat_ofNat', UInt8.toNat_ofNat', ofLittleEndian, ofLittleEndian]
  have first := (vector.byteAt (lane.val / 2 * 2)).toNat_lt
  split
  next here =>
    rw [← here, byteAt_eq]
    omega
  · have here : lane.val / 2 * 2 + 1 = lane.val := by omega
    rw [here, byteAt_eq]
    omega

lemma low_apply (vector : Lanes 32) (lane : Fin 16) : vector.low lane = vector.byteAt lane.val := rfl

/-- A register moved up by some lanes, which are filled from the end of another. -/
lemma alignrEpi8_apply (fits : amount ≤ 16) (lower : Lanes 16) (lane : Fin 16) :
    alignrEpi8 upper lower (16 - amount) lane =
      if lane.val < amount then lower.byteAt (16 - amount + lane.val)
      else upper.byteAt (lane.val - amount) := by
  unfold alignrEpi8
  split
  · rw [if_pos (by omega), Nat.add_comm]
  rw [if_neg (by omega)]
  congr 1
  omega

lemma ofHalves_low {low high : Lanes 16} {lane : Fin 32} (below : lane.val < 16) :
    ofHalves low high lane = low ⟨lane.val, below⟩ :=
  (if_pos below).trans (byteAt_lt below)

lemma ofHalves_high {low high : Lanes 16} {lane : Fin 32} (above : ¬ lane.val < 16) :
    ofHalves low high lane = high ⟨lane.val - 16, by omega⟩ :=
  (if_neg above).trans (byteAt_lt _)

lemma byteAt_low {vector : Lanes 32} (inside : i < 16) : vector.low.byteAt i = vector.byteAt i :=
  byteAt_lt inside

lemma byteAt_high {vector : Lanes 32} (inside : i < 16) :
    vector.high.byteAt i = vector.byteAt (16 + i) :=
  byteAt_lt inside

lemma low_ofHalves (low high : Lanes 16) : (ofHalves low high).low = low := by
  funext lane
  have below : lane.val < 32 := by omega
  rw [low_apply, byteAt_lt below, ofHalves_low lane.isLt]

lemma high_ofHalves (low high : Lanes 16) : (ofHalves low high).high = high := by
  funext lane
  have below : 16 + lane.val < 32 := by omega
  change (ofHalves low high).byteAt (16 + lane.val) = _
  rw [byteAt_lt below, ofHalves_high (by simp)]
  congr 1
  exact Fin.ext (Nat.add_sub_cancel_left ..)

/-- The AVX2 form moves lanes across the halves after the halves are exchanged. -/
lemma alignr256Epi8_apply (fits : amount ≤ 16) (prev : Lanes 32) (lane : Fin 32) :
    alignr256Epi8 cur (permute2x128 prev cur 0b100001) (16 - amount) lane =
      if lane.val < amount then prev.byteAt (32 - amount + lane.val) else cur.byteAt (lane.val - amount) := by
  have exchanged : permute2x128 prev cur 0b100001 = ofHalves prev.high cur.low := rfl
  unfold alignr256Epi8
  rw [exchanged, low_ofHalves, high_ofHalves]
  by_cases below : lane.val < 16
  · rw [ofHalves_low below, alignrEpi8_apply fits]
    by_cases moved : lane.val < amount
    · rw [if_pos moved, if_pos moved, byteAt_high (by dsimp only; omega)]
      congr 1
      dsimp only
      omega
    · rw [if_neg moved, if_neg moved, byteAt_low (by omega)]
  · rw [ofHalves_high below, alignrEpi8_apply fits, if_neg (show ¬ lane.val < amount by omega)]
    dsimp only
    split
    · rw [byteAt_low (by omega)]
      congr 1
      omega
    · rw [byteAt_high (by omega)]
      congr 1
      omega

lemma shuffleEpi8_apply {lane : Fin 16} (small : (indexes lane).toNat < 16) :
    shuffleEpi8 table indexes lane = table.byteAt (indexes lane).toNat := by
  unfold shuffleEpi8
  rw [if_neg (by omega), Nat.mod_eq_of_lt small]

lemma shuffle256Epi8_apply {lane : Fin 32}
    (same : table.low = table.high) (small : (indexes lane).toNat < 16) :
    shuffle256Epi8 table indexes lane = table.byteAt (indexes lane).toNat := by
  unfold shuffle256Epi8
  by_cases below : lane.val < 16
  · have here : indexes.low ⟨lane.val, below⟩ = indexes lane := byteAt_eq
    rw [ofHalves_low below, shuffleEpi8_apply (by rwa [here]), here, byteAt_low small]
  · have here : indexes.high ⟨lane.val - 16, by omega⟩ = indexes lane := by
      change indexes.byteAt (16 + (lane.val - 16)) = _
      rw [Nat.add_sub_cancel' (Nat.le_of_not_lt below), byteAt_eq]
    rw [ofHalves_high below, shuffleEpi8_apply (by rwa [here]), here, ← same, byteAt_low small]

end

end Lanes

end FuchsiaSdk
