import FuchsiaSdk.Utf8Simd

/-! What the vectorized validator assumes of an architecture, that the three
architectures have it, and what one lane of the error vector says about four bytes in a
row: it is zero where the UTF-8 automaton has a step. -/
namespace FuchsiaSdk.Utf8Simd
open Memory Lanes Utf8 Utf8Scalar

/-! ## Laws of an architecture -/

/-- The operations mean, lane by lane, what the algorithm takes them to mean. -/
structure Lawful (arch : ArchImpl) : Prop where
  holds_three : 3 ≤ arch.vectorSize
  fits_table : arch.vectorSize ≤ 32
  fill : ∀ v lane, arch.fill v lane = v
  set32 : ∀ (vals : Vector UInt8 32) (lane : Fin arch.vectorSize) (i : Fin 32),
    lane.val + 32 = i.val + arch.vectorSize → arch.set32 vals lane = vals.get i
  isAllZero : ∀ vector, arch.isAllZero vector = true ↔ ∀ lane, vector lane = 0
  isAscii : ∀ vector, arch.isAscii vector = true ↔ ∀ lane, (vector lane).toNat < 0x80
  or : ∀ left right lane, arch.or left right lane = left lane ||| right lane
  and : ∀ left right lane, arch.and left right lane = left lane &&& right lane
  xor : ∀ left right lane, arch.xor left right lane = left lane ^^^ right lane
  saturatingSub : ∀ left right lane, (arch.saturatingSub left right lane).toNat =
    (left lane).toNat - (right lane).toNat
  shr4 : ∀ vector lane, (arch.shr4 vector lane).toNat = (vector lane).toNat / 16
  prev : ∀ amount cur prev lane, amount ≤ 3 → arch.prev amount cur prev lane =
    if lane.val < amount then prev.byteAt (arch.vectorSize - amount + lane.val)
    else cur.byteAt (lane.val - amount)
  lookup16 : ∀ vector (table : Vector UInt8 16) lane (i : Fin 16),
    (vector lane).toNat = i.val → arch.lookup16 vector table lane = table.get i
  check2Or3Continuation : ∀ prev2 prev3 lane,
    arch.check2Or3Continuation prev2 prev3 lane &&& 0x80 =
      if 0xE0 ≤ (prev2 lane).toNat ∨ 0xF0 ≤ (prev3 lane).toNat then 0x80 else 0

section

variable {count : Nat}

lemma saturatingSub_toNat (left right : Lanes count) (lane : Fin count) :
    (left.saturatingSub right lane).toNat = (left lane).toNat - (right lane).toNat := by
  have bound := (left lane).toNat_lt
  exact toNat_ofNat (by omega)

lemma x86Shr4_toNat (vector : Lanes count) (lane : Fin count) :
    (x86Shr4 vector lane).toNat = (vector lane).toNat / 16 := by
  have bound := (vector lane).toNat_lt
  unfold x86Shr4
  rw [srliEpi16_and, toNat_ofNat (by omega)]

/-- The differences that the signed comparison sees are small enough to be positive. -/
lemma signed_pos_iff (small : byte.toNat < 0x80) : 0 < signed byte ↔ byte.toNat ≠ 0 := by
  unfold signed
  omega

lemma or_eq_zero_iff {left right : UInt8} : left ||| right = 0 ↔ left = 0 ∧ right = 0 := by
  rw [← UInt8.toNat_inj, ← UInt8.toNat_inj, ← UInt8.toNat_inj]
  exact Nat.or_eq_zero_iff

lemma or_small_iff {left right : UInt8} :
    (left ||| right).toNat < 0x80 ↔ left.toNat < 0x80 ∧ right.toNat < 0x80 := by
  refine ⟨fun small => ?_, fun ⟨small, small'⟩ => Nat.or_lt_two_pow (n := 7) small small'⟩
  exact ⟨Nat.lt_of_le_of_lt Nat.left_le_or small, Nat.lt_of_le_of_lt Nat.right_le_or small⟩

lemma x86Check_apply (prev2 prev3 : Lanes count) (lane : Fin count) :
    x86Check2Or3Continuation prev2 prev3 lane &&& 0x80 =
      if 0xE0 ≤ (prev2 lane).toNat ∨ 0xF0 ≤ (prev3 lane).toNat then 0x80 else 0 := by
  have third := saturatingSub_toNat prev2 (dup 0b11011111) lane
  have fourth := saturatingSub_toNat prev3 (dup 0b11101111) lane
  have bound := (prev2 lane).toNat_lt
  have bound' := (prev3 lane).toNat_lt
  change _ = (prev2 lane).toNat - 0xDF at third
  change _ = (prev3 lane).toNat - 0xEF at fourth
  unfold x86Check2Or3Continuation cmpgtEpi8 Lanes.or
  generalize prev2.saturatingSub (dup 0b11011111) lane = isThirdByte at third ⊢
  generalize prev3.saturatingSub (dup 0b11101111) lane = isFourthByte at fourth ⊢
  have positive : signed (dup 0 lane) < signed (isThirdByte ||| isFourthByte) ↔
      0xE0 ≤ (prev2 lane).toNat ∨ 0xF0 ≤ (prev3 lane).toNat := by
    change 0 < signed _ ↔ _
    rw [signed_pos_iff (or_small_iff.mpr ⟨by omega, by omega⟩), ← UInt8.toNat_zero, Ne, UInt8.toNat_inj,
      or_eq_zero_iff, ← UInt8.toNat_inj, ← UInt8.toNat_inj, UInt8.toNat_zero]
    omega
  by_cases follows : 0xE0 ≤ (prev2 lane).toNat ∨ 0xF0 ≤ (prev3 lane).toNat
  · rw [if_pos follows, if_pos (positive.mpr follows)]
    rfl
  · rw [if_neg follows, if_neg (mt positive.mp follows)]
    rfl

private lemma neonCheck_apply (prev2 prev3 : Lanes 16) (lane : Fin 16) :
    neon.check2Or3Continuation prev2 prev3 lane &&& 0x80 =
      if 0xE0 ≤ (prev2 lane).toNat ∨ 0xF0 ≤ (prev3 lane).toNat then 0x80 else 0 := by
  change ((if 0xE0 ≤ (prev2 lane).toNat then 0xFF else 0) |||
    (if 0xF0 ≤ (prev3 lane).toNat then 0xFF else 0)) &&& 0x80 = _
  by_cases follows : 0xE0 ≤ (prev2 lane).toNat ∨ 0xF0 ≤ (prev3 lane).toNat
  · rw [if_pos follows]
    rcases follows with third | _
    · rw [if_pos third]
      split <;> rfl
    · split <;> rfl
  · rw [if_neg follows, if_neg (mt Or.inl follows), if_neg (mt Or.inr follows)]
    rfl

lemma setLast16_apply (vals : Vector UInt8 32) (lane : Fin 16) (i : Fin 32)
    (same : lane.val + 32 = i.val + 16) : setLast16 vals lane = vals.get i := by
  unfold setLast16
  congr 1
  apply Fin.ext
  dsimp only
  omega

lemma byteAt_setRepeat16 (inside : i.val < count) :
    (setRepeat16 table : Lanes count).byteAt i.val = table.get i := by
  rw [byteAt_lt inside]
  unfold setRepeat16
  congr 1
  exact Fin.ext (Nat.mod_eq_of_lt i.isLt)

private lemma halves_setRepeat16 :
    (setRepeat16 table : Lanes 32).low = (setRepeat16 table : Lanes 32).high := by
  funext lane
  change (setRepeat16 table).byteAt lane.val = (setRepeat16 table).byteAt (16 + lane.val)
  rw [byteAt_lt (show lane.val < 32 by omega), byteAt_lt (show 16 + lane.val < 32 by omega)]
  unfold setRepeat16
  congr 1
  apply Fin.ext
  dsimp only
  omega

end

lemma avx2_lawful : Lawful avx2 where
  holds_three := by decide
  fits_table := by decide
  fill _ _ := rfl
  set32 vals lane i same := by
    congr 1
    apply Fin.ext
    exact Nat.add_right_cancel same
  isAllZero _ := bne_iff_ne.trans testz_self_ne_zero
  isAscii _ := beq_iff_eq.trans movemaskEpi8_eq_zero
  or _ _ _ := rfl
  and _ _ _ := rfl
  xor _ _ _ := rfl
  saturatingSub := saturatingSub_toNat
  shr4 := x86Shr4_toNat
  prev amount cur prev lane small := alignr256Epi8_apply (by omega) prev lane
  lookup16 vector table lane i same := by
    have small : (vector lane).toNat < 16 := by omega
    refine (shuffle256Epi8_apply (halves_setRepeat16) small).trans ?_
    rw [same]
    exact byteAt_setRepeat16 (by omega)
  check2Or3Continuation := x86Check_apply

lemma ssse3_lawful : Lawful ssse3 where
  holds_three := by decide
  fits_table := by decide
  fill _ _ := rfl
  set32 := setLast16_apply
  isAllZero _ := bne_iff_ne.trans testz_self_ne_zero
  isAscii _ := beq_iff_eq.trans movemaskEpi8_eq_zero
  or _ _ _ := rfl
  and _ _ _ := rfl
  xor _ _ _ := rfl
  saturatingSub := saturatingSub_toNat
  shr4 := x86Shr4_toNat
  prev amount cur prev lane small := alignrEpi8_apply (by omega) prev lane
  lookup16 vector table lane i same := by
    have small : (vector lane).toNat < 16 := by omega
    refine (shuffleEpi8_apply small).trans ?_
    rw [same]
    exact byteAt_setRepeat16 i.isLt
  check2Or3Continuation := x86Check_apply

lemma neon_lawful : Lawful neon where
  holds_three := by decide
  fits_table := by decide
  fill _ _ := rfl
  set32 := setLast16_apply
  isAllZero _ := beq_iff_eq.trans vmaxvqU8_eq_zero
  isAscii _ := decide_eq_true_iff.trans (vmaxvqU8_lt (by decide))
  or _ _ _ := rfl
  and _ _ _ := rfl
  xor _ _ _ := rfl
  saturatingSub := saturatingSub_toNat
  shr4 vector lane := by
    have bound := (vector lane).toNat_lt
    refine (toNat_ofNat ?_).trans (Nat.shiftRight_eq_div_pow _ 4)
    omega
  prev amount cur prev lane small := alignrEpi8_apply (by omega) prev lane
  lookup16 vector table lane i same := by
    change (setRepeat16 table).byteAt (vector lane).toNat = _
    rw [same]
    exact byteAt_setRepeat16 i.isLt
  check2Or3Continuation := neonCheck_apply

/-! ## One lane -/

/-- What the three tables say together about a byte and the one before it. -/
def ruleAt (before half : Nat) : UInt8 :=
  byte1LoTable.get (.ofNat 16 before) &&& byte1HiTable.get (.ofNat 16 (before / 16)) &&&
    byte2HiTable.get (.ofNat 16 half)

/-- The byte has to continue an encoding that began two or three bytes before. -/
def Continues (third second : UInt8) : Prop := 0xE0 ≤ second.toNat ∨ 0xF0 ≤ third.toNat

instance (third second : UInt8) : Decidable (Continues third second) :=
  inferInstanceAs (Decidable (_ ∨ _))

/-- A lane of the error vector, for four bytes in a row. -/
def errorAt (third second first byte : UInt8) : UInt8 :=
  ruleAt first.toNat (byte.toNat / 16) ^^^ if Continues third second then 0x80 else 0

private lemma ruleAt_ascii : ∀ before < 0x80, ∀ half < 16,
    ruleAt before half = if 8 ≤ half ∧ half < 12 then kTooLong else 0 := by
  decide +kernel

private lemma ruleAt_tail : ∀ before < 0xC0, 0x80 ≤ before → ∀ half < 16,
    ruleAt before half = if 8 ≤ half ∧ half < 12 then kTwoContinuations else 0 := by
  decide +kernel

private lemma ruleAt_lead : ∀ before < 0x100, 0xC0 ≤ before → ∀ half < 16,
    (ruleAt before half = 0 ↔ (step (lead (.ofNat before)) (.ofNat (16 * half))).isSome) := by
  decide +kernel

variable {st next : State} {third second first byte : UInt8}

lemma tail_half : 8 ≤ byte.toNat / 16 ∧ byte.toNat / 16 < 12 ↔ InRange 0x80 0xBF byte := by
  unfold InRange
  omega

lemma half_lt : byte.toNat / 16 < 16 := by
  have bound := byte.toNat_lt
  omega

lemma within_isSome {low high : Nat} : (within low high byte next).isSome ↔ InRange low high byte := by
  unfold within
  split
  next inside => exact ⟨fun _ => inside, fun _ => rfl⟩
  next outside =>
    exact ⟨fun none => absurd none Bool.false_ne_true, fun inside => absurd inside outside⟩

lemma inRange_half {low high : Nat} : InRange (16 * low) (16 * high + 15) (.ofNat (16 * (byte.toNat / 16))) ↔
      InRange (16 * low) (16 * high + 15) byte := by
  have bound := byte.toNat_lt
  unfold InRange
  rw [toNat_ofNat (by omega)]
  omega

/-- Inside an encoding, the automaton looks at the upper half of a byte only. -/
private lemma step_half (inner : st ≠ .start) :
    (step st (.ofNat (16 * (byte.toNat / 16)))).isSome ↔ (step st byte).isSome := by
  cases st with
  | start => exact absurd rfl inner
  | stuck => exact Iff.rfl
  | tail1 | tail2 | tail3 => exact within_isSome.trans ((@inRange_half _ 8 11).trans within_isSome.symm)
  | afterE0 => exact within_isSome.trans ((@inRange_half _ 10 11).trans within_isSome.symm)
  | afterED => exact within_isSome.trans ((@inRange_half _ 8 9).trans within_isSome.symm)
  | afterF0 => exact within_isSome.trans ((@inRange_half _ 9 11).trans within_isSome.symm)
  | afterF4 => exact within_isSome.trans ((@inRange_half _ 8 8).trans within_isSome.symm)

/-- The last three bytes, for the state the automaton is in after them. -/
inductive Consistent (third second first : UInt8) : State → Prop where
  | led : ¬ InRange 0x80 0xBF first → ¬ Continues third second →
    Consistent third second first (lead first)
  | whole : InRange 0x80 0xBF first → ¬ Continues third second →
    Consistent third second first .start
  | one : InRange 0x80 0xBF first → second.toNat < 0xF0 → Continues third second →
    Consistent third second first .tail1
  | two : InRange 0x80 0xBF first → 0xF0 ≤ second.toNat →
    Consistent third second first .tail2

lemma errorAt_eq_rule (fresh : ¬ Continues third second) :
    errorAt third second first byte = ruleAt first.toNat (byte.toNat / 16) := by
  unfold errorAt
  rw [if_neg fresh, UInt8.xor_zero]

private lemma errorAt_ascii (ascii : first.toNat < 0x80) (fresh : ¬ Continues third second) :
    errorAt third second first byte = 0 ↔ ¬ InRange 0x80 0xBF byte := by
  rw [errorAt_eq_rule fresh, ruleAt_ascii _ ascii _ half_lt]
  by_cases tail : InRange 0x80 0xBF byte
  · rw [if_pos (tail_half.mpr tail)]
    exact ⟨fun zero => absurd zero (by decide), fun outside => absurd tail outside⟩
  · rw [if_neg (mt tail_half.mp tail)]
    exact ⟨fun _ => tail, fun _ => rfl⟩

/-- After a continuation, a further one has to be due. -/
lemma errorAt_tail (inside : InRange 0x80 0xBF first) :
    errorAt third second first byte = 0 ↔ (InRange 0x80 0xBF byte ↔ Continues third second) := by
  have rule := ruleAt_tail first.toNat (Nat.lt_succ_of_le inside.2) inside.1 _ (@half_lt byte)
  unfold errorAt
  rw [rule]
  by_cases tail : InRange 0x80 0xBF byte
  · rw [if_pos (tail_half.mpr tail)]
    split <;> rename_i due
    · exact ⟨fun _ => iff_of_true tail due, fun _ => rfl⟩
    · exact ⟨fun zero => absurd zero (by decide), fun same => absurd (same.mp tail) due⟩
  · rw [if_neg (mt tail_half.mp tail)]
    split <;> rename_i due
    · exact ⟨fun zero => absurd zero (by decide), fun same => absurd (same.mpr due) tail⟩
    · exact ⟨fun _ => iff_of_false tail due, fun _ => rfl⟩

lemma step_start_isSome : (step .start byte).isSome ↔ ¬ InRange 0x80 0xBF byte := by
  rw [step]
  split
  next inside =>
    exact ⟨fun none => absurd none Bool.false_ne_true, fun outside => absurd inside outside⟩
  next outside => exact ⟨fun _ => outside, fun _ => rfl⟩

lemma lead_ne_start (high : 0xC0 ≤ byte.toNat) : lead byte ≠ .start := by
  have leads := leads_lead byte
  intro same
  rw [same] at leads
  cases leads with
  | ascii ascii => omega

/-- A lane is zero where the automaton has a step. -/
lemma errorAt_eq_zero (consistent : Consistent third second first st) :
    errorAt third second first byte = 0 ↔ (step st byte).isSome := by
  cases consistent with
  | led outside fresh =>
    by_cases ascii : first.toNat < 0x80
    · rw [errorAt_ascii ascii fresh, lead_of (.ascii ascii), step_start_isSome]
    have high : 0xC0 ≤ first.toNat := by
      unfold InRange at outside
      omega
    rw [errorAt_eq_rule fresh, ruleAt_lead _ first.toNat_lt high _ half_lt, UInt8.ofNat_toNat]
    exact step_half (lead_ne_start high)
  | whole tail fresh =>
    rw [errorAt_tail tail, step_start_isSome]
    exact iff_false_right fresh
  | one tail _ due =>
    rw [errorAt_tail tail, iff_true_right due]
    exact within_isSome.symm
  | two tail high =>
    have due : Continues third second := .inl (by omega)
    rw [errorAt_tail tail, iff_true_right due]
    exact within_isSome.symm

lemma within_eq_some {low high : Nat} (some : within low high byte next = some result) :
    InRange low high byte ∧ result = next := by
  unfold within at some
  split at some
  next inside => exact ⟨inside, (Option.some.inj some).symm⟩
  · cases some

/-- The second byte of an encoding. -/
private lemma consistent_second (fresh : ¬ Continues third second)
    (moved : step (lead first) byte = some next) (high : 0xC0 ≤ first.toNat) :
    Consistent second first byte next := by
  have small : second.toNat < 0xE0 ∧ third.toNat < 0xF0 := by
    unfold Continues at fresh
    omega
  have leads := leads_lead first
  generalize lead first = st at leads moved
  cases leads with
  | ascii ascii => omega
  | stuck => cases moved
  | tail1 inside =>
    obtain ⟨tail, rfl⟩ := within_eq_some moved
    have upper := inside.2
    exact .whole tail (by unfold Continues; omega)
  | afterE0 | afterED =>
    obtain ⟨tail, rfl⟩ := within_eq_some moved
    exact .one (tail.wider (by omega) (by omega)) (by omega) (.inl (by omega))
  | tail2 inside =>
    obtain ⟨tail, rfl⟩ := within_eq_some moved
    have lower := inside.1
    have upper := inside.2
    exact .one tail (by omega) (.inl (by omega))
  | afterF0 | afterF4 =>
    obtain ⟨tail, rfl⟩ := within_eq_some moved
    exact .two (tail.wider (by omega) (by omega)) (by omega)
  | tail3 inside =>
    obtain ⟨tail, rfl⟩ := within_eq_some moved
    have lower := inside.1
    exact .two tail (by omega)

lemma consistent_start (moved : step .start byte = some next) (low : first.toNat < 0xC0)
    (low' : second.toNat < 0xE0) : Consistent second first byte next := by
  have fresh : ¬ Continues second first := by
    unfold Continues
    omega
  rw [step] at moved
  split at moved <;> cases moved
  rename_i outside
  exact .led outside fresh

lemma consistent_step (consistent : Consistent third second first st)
    (moved : step st byte = some next) : Consistent second first byte next := by
  cases consistent with
  | led outside fresh =>
    by_cases ascii : first.toNat < 0x80
    · rw [lead_of (.ascii ascii)] at moved
      exact consistent_start moved (by omega) (by unfold Continues at fresh; omega)
    · exact consistent_second fresh moved (by unfold InRange at outside; omega)
  | whole tail fresh =>
    have upper := tail.2
    exact consistent_start moved (by omega) (by unfold Continues at fresh; omega)
  | one tail =>
    obtain ⟨inside, rfl⟩ := within_eq_some moved
    have upper := tail.2
    exact .whole inside (by unfold Continues; omega)
  | two tail high =>
    obtain ⟨inside, rfl⟩ := within_eq_some moved
    have upper := tail.2
    exact .one inside (by omega) (.inr high)

/-- Nothing is missing exactly at the end of an encoding. -/
lemma consistent_start_iff (consistent : Consistent third second first st) :
    first.toNat < 0xC0 ∧ ¬ Continues third second ↔ st = .start := by
  cases consistent with
  | led outside fresh =>
    refine ⟨fun ⟨low, _⟩ => lead_of (.ascii ?_), fun start => ⟨?_, fresh⟩⟩
    · unfold InRange at outside
      omega
    · by_contra high
      exact lead_ne_start (Nat.le_of_not_lt high) start
  | whole tail fresh => exact ⟨fun _ => rfl, fun _ => ⟨Nat.lt_succ_of_le tail.2, fresh⟩⟩
  | one _ _ due => exact ⟨fun complete => absurd due complete.2, nofun⟩
  | two _ high => exact ⟨fun complete => absurd (.inl (by omega)) complete.2, nofun⟩

end FuchsiaSdk.Utf8Simd
