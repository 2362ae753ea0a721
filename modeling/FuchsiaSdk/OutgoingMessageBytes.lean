import Mathlib.Algebra.Ring.Nat

/-! `OutgoingMessage::BytesMatch` (`fidl/cpp/wire/outgoing_message.cc`): the bytes of two messages are
compared across the borders of their iovecs. -/

open List

namespace FuchsiaSdk.OutgoingMessageBytes

/-- A place in a message: the iovecs from the current one on, and a byte of the current one. -/
structure Cursor where
  iovecs : List (List UInt8)
  byteIndex : Nat := 0

/-- A difference of two `uint32_t`. -/
def sub (first second : Nat) : Nat := (first + 2 ^ 32 - second) % 2 ^ 32

/-- The bytes that `memcmp` reads, `none` if some of them are outside of the buffer. -/
def read (buffer : List UInt8) (i length : Nat) : Option (List UInt8) :=
  if i + length ≤ buffer.length then some ((buffer.drop i).take length) else none

/-- The cursor after `cmp_len` bytes of the current iovec. -/
def Cursor.advance (length : Nat) : Cursor → Cursor
  | ⟨[], i⟩ => ⟨[], i⟩
  | ⟨iovec :: rest, i⟩ =>
    let i := (i + length) % 2 ^ 32
    if i = iovec.length then ⟨rest, 0⟩ else ⟨iovec :: rest, i⟩

/-- `BytesMatch`, from two cursors on; `none` if it reads outside of an iovec or has not ended. -/
def bytesMatch : (fuel : Nat) → (here there : Cursor) → Option Bool
  | 0, _, _ => none
  | fuel + 1, here, there =>
    match here.iovecs, there.iovecs with
    | iovec :: _, other :: _ => do
      let length := min (sub iovec.length here.byteIndex) (sub other.length there.byteIndex)
      let bytes ← read iovec here.byteIndex length
      let others ← read other there.byteIndex length
      if bytes ≠ others then some false
      else bytesMatch fuel (here.advance length) (there.advance length)
    | iovecs, others =>
      some (iovecs.isEmpty && others.isEmpty && here.byteIndex == 0 && there.byteIndex == 0)

/-- The bytes from the cursor on. -/
def Cursor.rest (cursor : Cursor) : List UInt8 := cursor.iovecs.flatten.drop cursor.byteIndex

/-- The cursor stands before a byte, or at the end. -/
structure Cursor.Valid (cursor : Cursor) : Prop where
  positive : ∀ iovec ∈ cursor.iovecs, iovec ≠ []
  small : cursor.iovecs.flatten.length < 2 ^ 32
  inside : ∀ iovec ∈ cursor.iovecs.head?, cursor.byteIndex < iovec.length
  ended : cursor.iovecs = [] → cursor.byteIndex = 0

lemma valid_start (positive : ∀ iovec ∈ iovecs, iovec ≠ []) (small : iovecs.flatten.length < 2 ^ 32) :
    Cursor.Valid ⟨iovecs, 0⟩ where
  positive
  small
  inside iovec first := length_pos_iff.mpr (positive iovec (mem_of_mem_head? first))
  ended _ := rfl

section

variable {iovec : List UInt8} {rest : List (List UInt8)} {i size : Nat}

lemma rest_cons : Cursor.rest ⟨iovec :: rest, i⟩ = (iovec ++ rest.flatten).drop i := rfl

lemma read_eq (within : i + size ≤ iovec.length) :
    read iovec i size = some ((Cursor.rest ⟨iovec :: rest, i⟩).take size) := by
  rw [read, if_pos within, rest_cons, drop_append_of_le_length (by omega),
    take_append_of_le_length (by rw [length_drop]; omega)]

variable (valid : Cursor.Valid ⟨iovec :: rest, i⟩)
include valid

lemma Cursor.Valid.bounds : i < iovec.length ∧ iovec.length + rest.flatten.length < 2 ^ 32 := by
  have small := valid.small
  rw [flatten_cons, length_append] at small
  exact ⟨valid.inside iovec rfl, small⟩

lemma sub_eq : sub iovec.length i = iovec.length - i := by
  have bounds := valid.bounds
  rw [sub, Nat.add_comm, Nat.add_sub_assoc (by omega), Nat.add_mod_left, Nat.mod_eq_of_lt (by omega)]

lemma rest_ne_nil : Cursor.rest ⟨iovec :: rest, i⟩ ≠ [] := by
  have bounds := valid.bounds
  rw [rest_cons, Ne, drop_eq_nil_iff, length_append]
  omega

lemma advance_spec (within : i + size ≤ iovec.length) :
    let later := Cursor.advance size ⟨iovec :: rest, i⟩
    later.Valid ∧ later.rest = (Cursor.rest ⟨iovec :: rest, i⟩).drop size ∧
      later.iovecs.length = if i + size = iovec.length then rest.length else rest.length + 1 := by
  have bounds := valid.bounds
  simp only [Cursor.advance, Nat.mod_eq_of_lt (show i + size < 2 ^ 32 by omega)]
  split
  · next whole =>
    refine ⟨valid_start (fun other mem => valid.positive other (mem_cons_of_mem _ mem)) (by omega), ?_, rfl⟩
    rw [rest_cons, drop_drop, whole, drop_left]
    rfl
  · next partly =>
    refine ⟨⟨valid.positive, valid.small, ?_, nofun⟩, drop_drop.symm, rfl⟩
    rintro _ ⟨⟩
    exact Nat.lt_of_le_of_ne within partly

end

/-- In every round one of the cursors leaves its iovec, so the fuel is the number of iovecs. -/
lemma bytesMatch_rest (here : Cursor.Valid first) (there : Cursor.Valid second)
    (enough : first.iovecs.length + second.iovecs.length < fuel) :
    bytesMatch fuel first second = some (decide (first.rest = second.rest)) := by
  induction fuel generalizing first second with
  | zero => exact absurd enough (Nat.not_lt_zero _)
  | succ fuel ih =>
    obtain ⟨iovecs, i⟩ := first
    obtain ⟨others, i'⟩ := second
    rw [bytesMatch]
    rcases iovecs with _ | ⟨iovec, rest⟩
    · cases here.ended rfl
      rcases others with _ | ⟨other, rest'⟩
      · cases there.ended rfl
        rfl
      · rw [decide_eq_false fun same => rest_ne_nil there same.symm]
        rfl
    rcases others with _ | ⟨other, rest'⟩
    · rw [decide_eq_false fun same => rest_ne_nil here (same.trans drop_nil)]
      rfl
    have bounds := here.bounds
    have bounds' := there.bounds
    simp only [sub_eq here, sub_eq there]
    generalize size_eq : min (iovec.length - i) (other.length - i') = size
    have within : i + size ≤ iovec.length := by omega
    have within' : i' + size ≤ other.length := by omega
    rw [@read_eq _ rest _ _ within, @read_eq _ rest' _ _ within']
    simp only [Option.bind_eq_bind, Option.bind_some]
    split
    · next differ => rw [decide_eq_false fun same => differ (congrArg _ same)]
    · next taken =>
      obtain ⟨valid, dropped, left⟩ := advance_spec here within
      obtain ⟨valid', dropped', left'⟩ := advance_spec there within'
      simp only [length_cons] at enough
      rw [ih valid valid' (by split at left <;> split at left' <;> omega), dropped, dropped']
      refine congrArg some (decide_eq_decide.mpr ⟨fun same => ?_, congrArg _⟩)
      rw [← take_append_drop size (Cursor.rest _), not_not.mp taken, same, take_append_drop]

/-- The comparison ends, reads no byte outside of an iovec, and does not depend on the iovecs. -/
theorem bytesMatch_eq (iovecs others : List (List UInt8)) (positive : ∀ iovec ∈ iovecs, iovec ≠ [])
    (others_positive : ∀ iovec ∈ others, iovec ≠ []) (small : iovecs.flatten.length < 2 ^ 32)
    (others_small : others.flatten.length < 2 ^ 32) :
    bytesMatch (iovecs.length + others.length + 1) ⟨iovecs, 0⟩ ⟨others, 0⟩ =
      some (decide (iovecs.flatten = others.flatten)) :=
  bytesMatch_rest (valid_start positive small) (valid_start others_positive others_small) (Nat.lt_succ_self _)

/-- The same three bytes, split in two ways. -/
theorem bytesMatch_split : bytesMatch 5 ⟨[[1, 2], [3]], 0⟩ ⟨[[1], [2, 3]], 0⟩ = some true :=
  bytesMatch_eq [[1, 2], [3]] [[1], [2, 3]] (by decide) (by decide) (by decide) (by decide)

end FuchsiaSdk.OutgoingMessageBytes
