import FuchsiaSdk.Memory
import FuchsiaSdk.Utf8

/-! `IsValidUtf8Scalar`: words of ASCII are skipped, and the rest is read encoding by
encoding. It accepts exactly the well-formed strings. -/
namespace FuchsiaSdk.Utf8Scalar
open Memory Utf8 List

/-! ## The validator -/

def isInRange (byte low high : UInt8) : Bool := low ≤ byte ∧ byte ≤ high

/-- `IsValidUtf8ScalarFull`, for the bytes from the position on. -/
def isValidUtf8ScalarFull : List UInt8 → Bool
  | [] => true
  | byte :: rest =>
    if byte ≤ 0x7F then isValidUtf8ScalarFull rest
    else if isInRange byte 0xC2 0xDF then
      match rest with
      | second :: rest =>
        if second &&& 0b11000000 ≠ 0b10000000 then false else isValidUtf8ScalarFull rest
      | _ => false
    else if isInRange byte 0xE0 0xEF then
      match rest with
      | second :: third :: rest =>
        if ofLittleEndian [second, third] &&& 0xC0C0 ≠ 0x8080 then false
        else if byte = 0xE0 ∧ !isInRange second 0xA0 0xBF then false
        else if byte = 0xED ∧ !isInRange second 0x80 0x9F then false
        else isValidUtf8ScalarFull rest
      | _ => false
    else if isInRange byte 0xF0 0xF4 then
      match rest with
      | second :: third :: fourth :: rest =>
        if ofLittleEndian [byte, second, third, fourth] &&& 0xC0C0C000 ≠ 0x80808000 then false
        else if byte = 0xF0 ∧ !isInRange second 0x90 0xBF then false
        else if byte = 0xF4 ∧ !isInRange second 0x80 0x8F then false
        else isValidUtf8ScalarFull rest
      | _ => false
    else false

/-- The loop over what is left after the last whole word. -/
def drainAscii : List UInt8 → Bool
  | [] => true
  | byte :: rest =>
    if byte &&& 0x80 ≠ 0 then isValidUtf8ScalarFull (byte :: rest) else drainAscii rest

/-- The loop over words of eight bytes. -/
def skipAscii : (words : Nat) → List UInt8 → Bool
  | 0, bytes => drainAscii bytes
  | words + 1, bytes =>
    if ofLittleEndian (bytes.take 8) &&& 0x8080808080808080 ≠ 0 then isValidUtf8ScalarFull bytes
    else skipAscii words (bytes.drop 8)

/-- `IsValidUtf8Scalar`; there are no bytes behind a null pointer. -/
def isValidUtf8Scalar : Option (List UInt8) → Bool
  | none => false
  | some bytes => skipAscii (bytes.length / 8) bytes

/-- `ValidateAndCopyUtf8Scalar`: nothing is copied of a string that is not valid. -/
def validateAndCopyUtf8Scalar (memory : Memory) (src : Option Nat) (dst size : Nat) :
    Bool × Memory :=
  let bytes := src.map fun src => load memory src size
  if isValidUtf8Scalar bytes then (true, store memory dst (bytes.getD [])) else (false, memory)

/-! ## Bytes in words -/

section

variable {byte second third fourth : UInt8} {bytes rest : List UInt8}

lemma land_add (small : low < 256) (small' : mask < 256) :
    (low + 256 * high) &&& (mask + 256 * mask') = (low &&& mask) + 256 * (high &&& mask') := by
  have bound : low &&& mask < 2 ^ 8 := Nat.and_lt_two_pow _ small'
  apply Nat.eq_of_testBit_eq
  intro _
  rw [Nat.testBit_and, Nat.add_comm low, Nat.add_comm mask, Nat.add_comm (low &&& mask),
    show 256 = 2 ^ 8 from rfl, Nat.testBit_two_pow_mul_add _ small,
    Nat.testBit_two_pow_mul_add _ small', Nat.testBit_two_pow_mul_add _ bound]
  split <;> exact (Nat.testBit_and ..).symm

/-- A mask on a word is a mask on each byte. -/
lemma land_ofLittleEndian (same : bytes.length = masks.length) :
    ofLittleEndian bytes &&& ofLittleEndian masks = ofLittleEndian (zipWith (· &&& ·) bytes masks) := by
  induction bytes generalizing masks with
  | nil => exact Nat.zero_and _
  | cons byte _ ih =>
    cases masks with
    | nil => cases same
    | cons mask masks =>
      rw [zipWith_cons_cons, ofLittleEndian, ofLittleEndian, ofLittleEndian,
        land_add byte.toNat_lt mask.toNat_lt, ih (Nat.succ.inj same), UInt8.toNat_and]

lemma ofLittleEndian_inj (same : bytes.length = values.length) :
    ofLittleEndian bytes = ofLittleEndian values ↔ bytes = values := by
  refine ⟨fun equal => ?_, congrArg _⟩
  have read := littleEndian_ofLittleEndian bytes
  rwa [equal, same, littleEndian_ofLittleEndian, eq_comm] at read

/-- Comparing a masked word. -/
lemma masked_iff {masks values : List UInt8} (same : bytes.length = masks.length)
    (same' : bytes.length = values.length) :
    ofLittleEndian bytes &&& ofLittleEndian masks = ofLittleEndian values ↔
      zipWith (· &&& ·) bytes masks = values := by
  rw [land_ofLittleEndian same]
  apply ofLittleEndian_inj
  rw [length_zipWith, ← same, Nat.min_self, same']

/-- The two top bits of a continuation. -/
lemma tail_iff : byte &&& 0xC0 = 0x80 ↔ InRange 0x80 0xBF byte := by
  have all : ∀ v < 256, v &&& 0xC0 = 0x80 ↔ 0x80 ≤ v ∧ v ≤ 0xBF := by
    decide +kernel
  rw [← UInt8.toNat_inj]
  exact all byte.toNat byte.toNat_lt

/-- The top bit of an ASCII character. -/
lemma ascii_iff : byte &&& 0x80 = 0 ↔ byte.toNat < 0x80 := by
  have all : ∀ v < 256, v &&& 0x80 = 0 ↔ v < 0x80 := by decide +kernel
  rw [← UInt8.toNat_inj]
  exact all byte.toNat byte.toNat_lt

lemma tails_two_iff : ofLittleEndian [second, third] &&& 0xC0C0 = 0x8080 ↔
      InRange 0x80 0xBF second ∧ InRange 0x80 0xBF third := by
  have masked := @masked_iff [second, third] [0xC0, 0xC0] [0x80, 0x80] rfl rfl
  simp only [zipWith_cons_cons, zipWith_nil_left, cons.injEq, tail_iff, and_true] at masked
  exact masked

lemma tails_three_iff : ofLittleEndian [byte, second, third, fourth] &&& 0xC0C0C000 = 0x80808000 ↔
      InRange 0x80 0xBF second ∧ InRange 0x80 0xBF third ∧ InRange 0x80 0xBF fourth := by
  have masked := @masked_iff [byte, second, third, fourth] [0, 0xC0, 0xC0, 0xC0]
    [0, 0x80, 0x80, 0x80] rfl rfl
  simp only [zipWith_cons_cons, zipWith_nil_left, cons.injEq, tail_iff,
    UInt8.and_zero, true_and, and_true] at masked
  exact masked

lemma isInRange_iff : isInRange byte low high = true ↔ InRange low.toNat high.toNat byte := by
  unfold isInRange InRange
  rw [decide_eq_true_eq, UInt8.le_iff_toNat_le, UInt8.le_iff_toNat_le]

/-! ## What the slow path accepts -/

/-- The check of a second byte that is made after one first byte only. -/
lemma restricted_iff : ¬ (byte = first ∧ (!isInRange second low high) = true) ↔
      (byte.toNat = first.toNat → InRange low.toNat high.toNat second) := by
  rw [not_and, UInt8.toNat_inj, Bool.not_eq_true', Bool.not_eq_false, isInRange_iff]

lemma sequences_of_full (valid : isValidUtf8ScalarFull bytes = true) : Sequences bytes := by
  fun_induction isValidUtf8ScalarFull bytes with
  | case1 => exact .nil
  | case2 byte rest ascii ih =>
    have bound := UInt8.le_iff_toNat_le.mp ascii
    exact .one (Nat.lt_succ_of_le bound) (ih valid)
  | case4 byte _ first second rest tail ih =>
    exact .two (isInRange_iff.mp first) (tail_iff.mp (not_not.mp tail)) (ih valid)
  | case9 byte _ _ first second third rest tails overlong surrogate ih =>
    obtain ⟨tail, tail'⟩ := tails_two_iff.mp (not_not.mp tails)
    exact .three (isInRange_iff.mp first) tail (fun same => (restricted_iff.mp overlong same).1)
      (fun same => (restricted_iff.mp surrogate same).2) tail' (ih valid)
  | case14 byte _ _ _ first second third _ rest tails overlong large ih =>
    obtain ⟨tail, tail', tail''⟩ := tails_three_iff.mp (not_not.mp tails)
    exact .four (isInRange_iff.mp first) tail (fun same => (restricted_iff.mp overlong same).1)
      (fun same => (restricted_iff.mp large same).2) tail' tail'' (ih valid)
  | case3 | case5 | case6 | case7 | case8 | case10 | case11 | case12 | case13 | case15 | case16 =>
    cases valid

lemma not_ascii (high : 0x80 ≤ byte.toNat) : ¬ byte ≤ 0x7F := by
  exact Nat.not_le_of_lt high

lemma isInRange_above (above : high.toNat < byte.toNat) : ¬ isInRange byte low high = true := by
  rw [isInRange_iff]
  exact fun inside => Nat.not_le_of_lt above inside.2

lemma full_one (ascii : byte.toNat < 0x80) :
    isValidUtf8ScalarFull (byte :: rest) = isValidUtf8ScalarFull rest := by
  have low : byte ≤ 0x7F := UInt8.le_iff_toNat_le.mpr (Nat.le_of_lt_succ ascii)
  conv => lhs; unfold isValidUtf8ScalarFull
  rw [if_pos low]

lemma full_two (first : InRange 0xC2 0xDF byte) (tail : InRange 0x80 0xBF second) :
    isValidUtf8ScalarFull (byte :: second :: rest) = isValidUtf8ScalarFull rest := by
  have lower := first.1
  have inside : isInRange byte 0xC2 0xDF = true := isInRange_iff.mpr first
  conv => lhs; unfold isValidUtf8ScalarFull
  rw [if_neg (not_ascii (by omega)), if_pos inside]
  exact if_neg (not_not.mpr (tail_iff.mpr tail))

lemma full_three (first : InRange 0xE0 0xEF byte) (tail : InRange 0x80 0xBF second)
    (overlong : byte.toNat = 0xE0 → 0xA0 ≤ second.toNat)
    (surrogate : byte.toNat = 0xED → second.toNat ≤ 0x9F) (tail' : InRange 0x80 0xBF third) :
    isValidUtf8ScalarFull (byte :: second :: third :: rest) = isValidUtf8ScalarFull rest := by
  have lower := first.1
  have outside : ¬ isInRange byte 0xC2 0xDF = true :=
    isInRange_above (Nat.lt_of_lt_of_le (by decide) lower)
  have inside : isInRange byte 0xE0 0xEF = true := isInRange_iff.mpr first
  have overlong : ¬ (byte = 0xE0 ∧ (!isInRange second 0xA0 0xBF) = true) :=
    restricted_iff.mpr fun same => ⟨overlong same, tail.2⟩
  have surrogate : ¬ (byte = 0xED ∧ (!isInRange second 0x80 0x9F) = true) :=
    restricted_iff.mpr fun same => ⟨tail.1, surrogate same⟩
  conv => lhs; unfold isValidUtf8ScalarFull
  rw [if_neg (not_ascii (by omega)), if_neg outside, if_pos inside]
  dsimp only
  rw [if_neg (not_not.mpr (tails_two_iff.mpr ⟨tail, tail'⟩)), if_neg overlong, if_neg surrogate]

lemma full_four (first : InRange 0xF0 0xF4 byte) (tail : InRange 0x80 0xBF second)
    (overlong : byte.toNat = 0xF0 → 0x90 ≤ second.toNat)
    (large : byte.toNat = 0xF4 → second.toNat ≤ 0x8F) (tail' : InRange 0x80 0xBF third)
    (tail'' : InRange 0x80 0xBF fourth) : isValidUtf8ScalarFull (byte :: second :: third :: fourth :: rest) =
      isValidUtf8ScalarFull rest := by
  have lower := first.1
  have outside : ¬ isInRange byte 0xC2 0xDF = true :=
    isInRange_above (Nat.lt_of_lt_of_le (by decide) lower)
  have outside' : ¬ isInRange byte 0xE0 0xEF = true :=
    isInRange_above (Nat.lt_of_lt_of_le (by decide) lower)
  have inside : isInRange byte 0xF0 0xF4 = true := isInRange_iff.mpr first
  have overlong : ¬ (byte = 0xF0 ∧ (!isInRange second 0x90 0xBF) = true) :=
    restricted_iff.mpr fun same => ⟨overlong same, tail.2⟩
  have large : ¬ (byte = 0xF4 ∧ (!isInRange second 0x80 0x8F) = true) :=
    restricted_iff.mpr fun same => ⟨tail.1, large same⟩
  conv => lhs; unfold isValidUtf8ScalarFull
  rw [if_neg (not_ascii (by omega)), if_neg outside, if_neg outside', if_pos inside]
  dsimp only
  rw [if_neg (not_not.mpr (tails_three_iff.mpr ⟨tail, tail', tail''⟩)), if_neg overlong,
    if_neg large]

lemma full_of_sequences (sequences : Sequences bytes) : isValidUtf8ScalarFull bytes = true := by
  induction sequences with
  | nil => rfl
  | one ascii _ ih => rwa [full_one ascii]
  | two first tail _ ih => rwa [full_two first tail]
  | three first tail overlong surrogate tail' _ ih =>
    rwa [full_three first tail overlong surrogate tail']
  | four first tail overlong large tail' tail'' _ ih =>
    rwa [full_four first tail overlong large tail' tail'']

lemma full_iff : isValidUtf8ScalarFull bytes = true ↔ WellFormed bytes := by
  rw [wellFormed_iff]
  exact ⟨sequences_of_full, full_of_sequences⟩

/-! ## The fast path -/

/-- Characters the fast path skips make no difference. -/
lemma full_skipped (ascii : ∀ byte ∈ skipped, byte.toNat < 0x80) :
    isValidUtf8ScalarFull (skipped ++ rest) = isValidUtf8ScalarFull rest := by
  induction skipped with
  | nil => rfl
  | cons byte skipped ih =>
    rw [cons_append, full_one (ascii byte mem_cons_self)]
    exact ih fun other mem => ascii other (mem_cons_of_mem _ mem)

lemma drainAscii_eq : drainAscii bytes = isValidUtf8ScalarFull bytes := by
  induction bytes with
  | nil => rfl
  | cons _ _ ih =>
    rw [drainAscii]
    split
    · rfl
    next ascii => rw [ih, full_one (ascii_iff.mp (not_not.mp ascii))]

/-- A word whose masked top bits are zero. -/
lemma ascii_word {word : List UInt8} (whole : word.length = 8)
    (zero : ofLittleEndian word &&& 0x8080808080808080 = 0) : ∀ byte ∈ word, byte.toNat < 0x80 := by
  have masked := @masked_iff word (replicate 8 0x80) (replicate 8 0) whole whole
  have equal := masked.mp zero
  intro byte mem
  obtain ⟨i, inside, rfl⟩ := getElem_of_mem mem
  have lane := getElem?_eq_getElem inside
  apply ascii_iff.mp
  have zeroes := congrArg (fun list => list[i]?) equal
  rw [getElem?_zipWith, lane, getElem?_replicate_of_lt (by omega),
    getElem?_replicate_of_lt (by omega)] at zeroes
  exact Option.some.inj zeroes

lemma skipAscii_eq (enough : 8 * words ≤ bytes.length) :
    skipAscii words bytes = isValidUtf8ScalarFull bytes := by
  induction words generalizing bytes with
  | zero => exact drainAscii_eq
  | succ words ih =>
    rw [skipAscii]
    split
    · rfl
    rename_i zero
    have ascii := ascii_word (by rw [length_take]; omega) (not_not.mp zero)
    rw [ih (by rw [length_drop]; omega), ← full_skipped ascii, take_append_drop]

lemma isValidUtf8Scalar_some : isValidUtf8Scalar (some bytes) = isValidUtf8ScalarFull bytes :=
  skipAscii_eq (Nat.mul_div_le ..)

/-- The scalar validator accepts exactly the well-formed strings. -/
theorem isValidUtf8Scalar_iff (bytes : List UInt8) :
    isValidUtf8Scalar (some bytes) = true ↔ WellFormed bytes := by
  rw [isValidUtf8Scalar_some, full_iff]

end

end FuchsiaSdk.Utf8Scalar
