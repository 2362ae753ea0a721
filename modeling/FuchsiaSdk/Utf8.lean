import Mathlib.Data.List.Basic
import Mathlib.Tactic.Common

/-! UTF-8: the encodings of Unicode scalar values as RFC 3629 defines them, and an
automaton that reads them byte by byte. -/
namespace FuchsiaSdk.Utf8
open List

/-! ## Encodings -/

def IsScalarValue (code : Nat) : Prop := code < 0xD800 ∨ 0xDFFF < code ∧ code ≤ 0x10FFFF

instance (code : Nat) : Decidable (IsScalarValue code) :=
  inferInstanceAs (Decidable (_ ∨ _))

/-- The encoding of a code point, with six bits in each byte after the first. -/
def encode (code : Nat) : List UInt8 :=
  if code < 0x80 then [.ofNat code]
  else if code < 0x800 then [.ofNat (0xC0 + code / 64), .ofNat (0x80 + code % 64)]
  else if code < 0x10000 then
    [.ofNat (0xE0 + code / 4096), .ofNat (0x80 + code / 64 % 64), .ofNat (0x80 + code % 64)]
  else
    [.ofNat (0xF0 + code / 262144), .ofNat (0x80 + code / 4096 % 64),
      .ofNat (0x80 + code / 64 % 64), .ofNat (0x80 + code % 64)]

/-- A concatenation of encodings of scalar values. -/
def WellFormed (bytes : List UInt8) : Prop :=
  ∃ codes : List Nat, (∀ code ∈ codes, IsScalarValue code) ∧ bytes = codes.flatMap encode

/-! ## The automaton -/

/-- Where a reader stands between two bytes. -/
inductive State where
  | start
  /-- After a byte that begins no encoding. -/
  | stuck
  | tail1
  | tail2
  | tail3
  | afterE0
  | afterED
  | afterF0
  | afterF4
  deriving DecidableEq, Repr

def InRange (low high : Nat) (byte : UInt8) : Prop := low ≤ byte.toNat ∧ byte.toNat ≤ high

instance (low high : Nat) (byte : UInt8) : Decidable (InRange low high byte) :=
  inferInstanceAs (Decidable (_ ∧ _))

/-- The state after a first byte. -/
def lead (byte : UInt8) : State :=
  if byte.toNat < 0x80 then .start
  else if byte.toNat < 0xC2 then .stuck
  else if byte.toNat < 0xE0 then .tail1
  else if byte.toNat = 0xE0 then .afterE0
  else if byte.toNat = 0xED then .afterED
  else if byte.toNat < 0xF0 then .tail2
  else if byte.toNat = 0xF0 then .afterF0
  else if byte.toNat < 0xF4 then .tail3
  else if byte.toNat = 0xF4 then .afterF4
  else .stuck

def within (low high : Nat) (byte : UInt8) (next : State) : Option State :=
  if InRange low high byte then some next else none

def step : State → UInt8 → Option State
  | .start, byte => if InRange 0x80 0xBF byte then none else some (lead byte)
  | .stuck, _ => none
  | .tail1, byte => within 0x80 0xBF byte .start
  | .tail2, byte => within 0x80 0xBF byte .tail1
  | .tail3, byte => within 0x80 0xBF byte .tail2
  | .afterE0, byte => within 0xA0 0xBF byte .tail1
  | .afterED, byte => within 0x80 0x9F byte .tail1
  | .afterF0, byte => within 0x90 0xBF byte .tail2
  | .afterF4, byte => within 0x80 0x8F byte .tail2

def run : State → List UInt8 → Option State
  | st, [] => some st
  | st, byte :: rest => (step st byte).bind fun st => run st rest

/-- The bytes end where an encoding ends. -/
def Accepted (bytes : List UInt8) : Prop := run .start bytes = some .start

instance (bytes : List UInt8) : Decidable (Accepted bytes) :=
  inferInstanceAs (Decidable (_ = _))

lemma run_append (st : State) (first second : List UInt8) :
    run st (first ++ second) = (run st first).bind fun st => run st second := by
  induction first generalizing st with
  | nil => rfl
  | cons byte _ ih =>
    rw [cons_append, run, run]
    cases step st byte with
    | none => rfl
    | some next => exact ih next

/-! ## Reading an encoding -/

section

variable {byte : UInt8} {bytes rest : List UInt8} {st next : State} {low high code : Nat}

lemma run_within (steps : ∀ byte, step st byte = within low high byte next)
    (inside : InRange low high byte) : run st (byte :: rest) = run next rest := by
  rw [run, steps, within, if_pos inside]
  rfl

/-- What a state other than the first one is followed by. -/
lemma next_byte (ended : run st bytes = some .start) (inner : st ≠ .start)
    (steps : ∀ byte, step st byte = within low high byte next) :
    ∃ byte rest, bytes = byte :: rest ∧ InRange low high byte ∧ run next rest = some .start := by
  cases bytes with
  | nil => exact absurd (Option.some.inj ended) inner
  | cons byte rest =>
    by_cases inside : InRange low high byte
    · rw [run_within steps inside] at ended
      exact ⟨byte, rest, rfl, inside, ended⟩
    · rw [run, steps, within, if_neg inside] at ended
      cases ended

lemma run_lead (first : byte.toNat < 0x80 ∨ 0xBF < byte.toNat) :
    run .start (byte :: rest) = run (lead byte) rest := by
  have outside : ¬ InRange 0x80 0xBF byte := by
    unfold InRange
    omega
  rw [run, step, if_neg outside]
  rfl

lemma toNat_ofNat (small : v < 256) : (UInt8.ofNat v).toNat = v :=
  (UInt8.toNat_ofNat' ..).trans (Nat.mod_eq_of_lt small)

lemma inRange_ofNat (small : v < 256) (above : low ≤ v)
    (below : v ≤ high) : InRange low high (.ofNat v) := by
  unfold InRange
  rw [toNat_ofNat small]
  exact ⟨above, below⟩

/-- A byte that is not a continuation, and the state after it. -/
inductive Leads (byte : UInt8) : State → Prop where
  | ascii : byte.toNat < 0x80 → Leads byte .start
  | stuck : 0x80 ≤ byte.toNat → byte.toNat < 0xC2 ∨ 0xF4 < byte.toNat → Leads byte .stuck
  | tail1 : InRange 0xC2 0xDF byte → Leads byte .tail1
  | afterE0 : byte.toNat = 0xE0 → Leads byte .afterE0
  | afterED : byte.toNat = 0xED → Leads byte .afterED
  | tail2 : InRange 0xE1 0xEF byte → byte.toNat ≠ 0xED → Leads byte .tail2
  | afterF0 : byte.toNat = 0xF0 → Leads byte .afterF0
  | tail3 : InRange 0xF1 0xF3 byte → Leads byte .tail3
  | afterF4 : byte.toNat = 0xF4 → Leads byte .afterF4

lemma leads_lead (byte : UInt8) : Leads byte (lead byte) := by
  unfold lead
  split
  next ascii => exact .ascii ascii
  split
  next low => exact .stuck (by omega) (.inl low)
  split
  · exact .tail1 ⟨by omega, by omega⟩
  split
  next e0 => exact .afterE0 e0
  split
  next ed => exact .afterED ed
  rename_i ed
  split
  · exact .tail2 ⟨by omega, by omega⟩ ed
  split
  next f0 => exact .afterF0 f0
  split
  · exact .tail3 ⟨by omega, by omega⟩
  split
  next f4 => exact .afterF4 f4
  · exact .stuck (by omega) (.inr (by omega))

lemma lead_of (leads : Leads byte st) : lead byte = st := by
  have found := leads_lead byte
  generalize lead byte = other at found
  cases leads <;> cases found <;> first | rfl | (unfold InRange at *; omega)

/-- A first byte that is followed by others. -/
lemma run_first (small : v < 256) (above : 0xBF < v) (leads : Leads (.ofNat v) st) :
    run .start (.ofNat v :: rest) = run st rest := by
  rw [run_lead (by rw [toNat_ofNat small]; exact .inr above), lead_of leads]

lemma run_tail (steps : ∀ byte, step st byte = within low high byte next) (above : low ≤ 0x80 + v)
    (below : 0x80 + v ≤ high) (small : v < 64) :
    run st (.ofNat (0x80 + v) :: rest) = run next rest :=
  run_within steps (inRange_ofNat (by omega) above below)

/-- The automaton reads the encoding of a code point of two bytes. -/
lemma run_two (lower : 0xC2 ≤ first) (upper : first ≤ 0xDF) (tail : second < 64) :
    run .start (.ofNat first :: .ofNat (0x80 + second) :: rest) = run .start rest := by
  rw [run_first (by omega) (by omega) (.tail1 (inRange_ofNat (by omega) lower upper)),
    run_tail (fun _ => rfl) (by omega) (by omega) tail]

/-- One of three bytes: the second byte is restricted after the first and the last
but two of the first bytes. -/
lemma run_three (small : first < 16)
    (overlong : first = 0 → 32 ≤ second) (surrogate : first = 13 → second < 32)
    (tail : second < 64) (tail' : third < 64) :
    run .start (.ofNat (0xE0 + first) :: .ofNat (0x80 + second) :: .ofNat (0x80 + third) :: rest) =
      run .start rest := by
  have last : run .tail1 (.ofNat (0x80 + third) :: rest) = run .start rest :=
    run_tail (fun _ => rfl) (by omega) (by omega) tail'
  have v : (UInt8.ofNat (0xE0 + first)).toNat = 0xE0 + first := toNat_ofNat (by omega)
  rw [← last]
  by_cases lowest : first = 0
  · rw [run_first (by omega) (by omega) (.afterE0 (by omega)),
      run_tail (fun _ => rfl) (by omega) (by omega) tail]
  · by_cases highest : first = 13
    · rw [run_first (by omega) (by omega) (.afterED (by omega)),
        run_tail (fun _ => rfl) (by omega) (by omega) tail]
    · rw [run_first (by omega) (by omega)
          (.tail2 (inRange_ofNat (by omega) (by omega) (by omega)) (by omega)),
        run_tail (fun _ => rfl) (by omega) (by omega) tail]

lemma run_four (small : first < 5) (overlong : first = 0 → 16 ≤ second) (large : first = 4 → second < 16)
    (tail : second < 64) (tail' : third < 64) (tail'' : fourth < 64) :
    run .start (.ofNat (0xF0 + first) :: .ofNat (0x80 + second) :: .ofNat (0x80 + third) ::
      .ofNat (0x80 + fourth) :: rest) = run .start rest := by
  have last : run .tail2 (.ofNat (0x80 + third) :: .ofNat (0x80 + fourth) :: rest) =
      run .start rest := by
    rw [run_tail (fun _ => rfl) (by omega) (by omega) tail',
      run_tail (fun _ => rfl) (by omega) (by omega) tail'']
  have v : (UInt8.ofNat (0xF0 + first)).toNat = 0xF0 + first := toNat_ofNat (by omega)
  rw [← last]
  by_cases lowest : first = 0
  · rw [run_first (by omega) (by omega) (.afterF0 (by omega)),
      run_tail (fun _ => rfl) (by omega) (by omega) tail]
  · by_cases highest : first = 4
    · rw [run_first (by omega) (by omega) (.afterF4 (by omega)),
        run_tail (fun _ => rfl) (by omega) (by omega) tail]
    · rw [run_first (by omega) (by omega) (.tail3 (inRange_ofNat (by omega) (by omega) (by omega))),
        run_tail (fun _ => rfl) (by omega) (by omega) tail]

lemma run_encode (scalar : IsScalarValue code) : run .start (encode code ++ rest) = run .start rest := by
  unfold IsScalarValue at scalar
  unfold encode
  split
  · have ascii : (UInt8.ofNat code).toNat < 0x80 := by rwa [toNat_ofNat (by omega)]
    rw [singleton_append, run_lead (.inl ascii), lead_of (.ascii ascii)]
  split
  · exact run_two (by omega) (by omega) (Nat.mod_lt _ (by omega))
  split
  · exact run_three (by omega) (by omega) (by omega) (by omega) (by omega)
  · exact run_four (by omega) (by omega) (by omega) (by omega) (by omega) (by omega)

lemma accepted_of_wellFormed (formed : WellFormed bytes) : Accepted bytes := by
  obtain ⟨codes, scalars, rfl⟩ := formed
  unfold Accepted
  induction codes with
  | nil => rfl
  | cons code _ ih =>
    rw [flatMap_cons, run_encode (scalars code mem_cons_self)]
    exact ih fun other mem => scalars other (mem_cons_of_mem _ mem)

/-! ## Recovering the scalar values -/

lemma ofNat_eq (byte : UInt8) (same : v = byte.toNat) : UInt8.ofNat v = byte := by
  rw [same, UInt8.ofNat_toNat]

lemma wellFormed_encode (scalar : IsScalarValue code) (formed : WellFormed rest) :
    WellFormed (encode code ++ rest) := by
  obtain ⟨codes, scalars, rfl⟩ := formed
  refine ⟨code :: codes, fun other mem => ?_, flatMap_cons.symm⟩
  rcases mem_cons.mp mem with rfl | mem
  · exact scalar
  · exact scalars other mem

variable {second third fourth : UInt8}

lemma wellFormed_one (ascii : byte.toNat < 0x80) (formed : WellFormed rest) : WellFormed (byte :: rest) := by
  have encoded : encode byte.toNat = [byte] := by
    unfold encode
    rw [if_pos ascii, UInt8.ofNat_toNat]
  have scalar : IsScalarValue byte.toNat := .inl (by omega)
  have step := wellFormed_encode scalar formed
  rwa [encoded] at step

lemma wellFormed_two (first : InRange 0xC2 0xDF byte) (tail : InRange 0x80 0xBF second)
    (formed : WellFormed rest) : WellFormed (byte :: second :: rest) := by
  unfold InRange at first tail
  have encoded : encode ((byte.toNat - 0xC0) * 64 + (second.toNat - 0x80)) = [byte, second] := by
    unfold encode
    rw [if_neg (by omega), if_pos (by omega), ofNat_eq byte (by omega), ofNat_eq second (by omega)]
  have scalar : IsScalarValue ((byte.toNat - 0xC0) * 64 + (second.toNat - 0x80)) :=
    .inl (by omega)
  have step := wellFormed_encode scalar formed
  rwa [encoded] at step

lemma wellFormed_three (first : InRange 0xE0 0xEF byte) (tail : InRange 0x80 0xBF second)
    (overlong : byte.toNat = 0xE0 → 0xA0 ≤ second.toNat)
    (surrogate : byte.toNat = 0xED → second.toNat ≤ 0x9F) (tail' : InRange 0x80 0xBF third)
    (formed : WellFormed rest) : WellFormed (byte :: second :: third :: rest) := by
  unfold InRange at first tail tail'
  have encoded : encode ((byte.toNat - 0xE0) * 4096 + (second.toNat - 0x80) * 64 +
      (third.toNat - 0x80)) = [byte, second, third] := by
    unfold encode
    rw [if_neg (by omega), if_neg (by omega), if_pos (by omega), ofNat_eq byte (by omega),
      ofNat_eq second (by omega), ofNat_eq third (by omega)]
  have scalar : IsScalarValue ((byte.toNat - 0xE0) * 4096 + (second.toNat - 0x80) * 64 +
      (third.toNat - 0x80)) := by
    unfold IsScalarValue
    omega
  have step := wellFormed_encode scalar formed
  rwa [encoded] at step

lemma wellFormed_four (first : InRange 0xF0 0xF4 byte) (tail : InRange 0x80 0xBF second)
    (overlong : byte.toNat = 0xF0 → 0x90 ≤ second.toNat)
    (large : byte.toNat = 0xF4 → second.toNat ≤ 0x8F) (tail' : InRange 0x80 0xBF third)
    (tail'' : InRange 0x80 0xBF fourth) (formed : WellFormed rest) :
    WellFormed (byte :: second :: third :: fourth :: rest) := by
  unfold InRange at first tail tail' tail''
  have encoded : encode ((byte.toNat - 0xF0) * 262144 + (second.toNat - 0x80) * 4096 +
      (third.toNat - 0x80) * 64 + (fourth.toNat - 0x80)) = [byte, second, third, fourth] := by
    unfold encode
    rw [if_neg (by omega), if_neg (by omega), if_neg (by omega), ofNat_eq byte (by omega),
      ofNat_eq second (by omega), ofNat_eq third (by omega), ofNat_eq fourth (by omega)]
  have scalar : IsScalarValue ((byte.toNat - 0xF0) * 262144 + (second.toNat - 0x80) * 4096 +
      (third.toNat - 0x80) * 64 + (fourth.toNat - 0x80)) := by
    unfold IsScalarValue
    omega
  have step := wellFormed_encode scalar formed
  rwa [encoded] at step

/-- The byte sequences of the encodings, one after the other: what each byte of one may be. -/
inductive Sequences : List UInt8 → Prop where
  | nil : Sequences []
  | one {byte : UInt8} {rest : List UInt8} :
    byte.toNat < 0x80 → Sequences rest → Sequences (byte :: rest)
  | two {byte second : UInt8} {rest : List UInt8} :
    InRange 0xC2 0xDF byte → InRange 0x80 0xBF second → Sequences rest →
    Sequences (byte :: second :: rest)
  | three {byte second third : UInt8} {rest : List UInt8} :
    InRange 0xE0 0xEF byte → InRange 0x80 0xBF second →
    (byte.toNat = 0xE0 → 0xA0 ≤ second.toNat) → (byte.toNat = 0xED → second.toNat ≤ 0x9F) →
    InRange 0x80 0xBF third → Sequences rest → Sequences (byte :: second :: third :: rest)
  | four {byte second third fourth : UInt8} {rest : List UInt8} :
    InRange 0xF0 0xF4 byte → InRange 0x80 0xBF second →
    (byte.toNat = 0xF0 → 0x90 ≤ second.toNat) → (byte.toNat = 0xF4 → second.toNat ≤ 0x8F) →
    InRange 0x80 0xBF third → InRange 0x80 0xBF fourth → Sequences rest →
    Sequences (byte :: second :: third :: fourth :: rest)

lemma Sequences.wellFormed (sequences : Sequences bytes) : WellFormed bytes := by
  induction sequences with
  | nil => exact ⟨[], nofun, rfl⟩
  | one ascii _ ih => exact wellFormed_one ascii ih
  | two first tail _ ih => exact wellFormed_two first tail ih
  | three first tail overlong surrogate tail' _ ih =>
    exact wellFormed_three first tail overlong surrogate tail' ih
  | four first tail overlong large tail' tail'' _ ih =>
    exact wellFormed_four first tail overlong large tail' tail'' ih

lemma run_stuck : run .stuck bytes ≠ some .start := by
  cases bytes <;> exact nofun

lemma InRange.wider (inside : InRange low high byte) (lower : low' ≤ low)
    (upper : high ≤ high') : InRange low' high' byte :=
  ⟨Nat.le_trans lower inside.1, Nat.le_trans inside.2 upper⟩

section

variable (continued : run st rest = some .start)
  (shorter : ∀ later, later.length < (byte :: rest).length →
    run .start later = some .start → Sequences later)
  (inner : st ≠ .start) (lower : 0x80 ≤ low) (upper : high ≤ 0xBF)
include continued shorter inner lower upper

/-- What follows the first byte of three, with the range of the second byte behind it. -/
lemma three_of_run (first : InRange 0xE0 0xEF byte)
    (steps : ∀ byte, step st byte = within low high byte .tail1)
    (overlong : byte.toNat = 0xE0 → 0xA0 ≤ low)
    (surrogate : byte.toNat = 0xED → high ≤ 0x9F) : Sequences (byte :: rest) := by
  obtain ⟨_, _, rfl, tail, continued⟩ := next_byte continued inner steps
  obtain ⟨third, later, rfl, tail', ended⟩ := next_byte continued nofun fun _ => rfl
  exact .three first (tail.wider lower upper) (fun same => Nat.le_trans (overlong same) tail.1)
    (fun same => Nat.le_trans tail.2 (surrogate same)) tail'
    (shorter later (by simp only [length_cons]; omega) ended)

lemma four_of_run (first : InRange 0xF0 0xF4 byte)
    (steps : ∀ byte, step st byte = within low high byte .tail2)
    (overlong : byte.toNat = 0xF0 → 0x90 ≤ low)
    (large : byte.toNat = 0xF4 → high ≤ 0x8F) : Sequences (byte :: rest) := by
  obtain ⟨_, _, rfl, tail, continued⟩ := next_byte continued inner steps
  obtain ⟨third, _, rfl, tail', continued⟩ := next_byte continued nofun fun _ => rfl
  obtain ⟨_, later, rfl, tail'', ended⟩ := next_byte continued nofun fun _ => rfl
  exact .four first (tail.wider lower upper) (fun same => Nat.le_trans (overlong same) tail.1)
    (fun same => Nat.le_trans tail.2 (large same)) tail' tail''
    (shorter later (by simp only [length_cons]; omega) ended)

end

lemma sequences_of_accepted (accepted : Accepted bytes) : Sequences bytes := by
  induction size : bytes.length using Nat.strongRecOn generalizing bytes with
  | ind size ih =>
    unfold Accepted at accepted ih
    cases bytes with
    | nil => exact .nil
    | cons byte rest =>
      by_cases tail : InRange 0x80 0xBF byte
      · rw [run, step, if_pos tail] at accepted
        cases accepted
      have shorter : ∀ later : List UInt8, later.length < (byte :: rest).length →
          run .start later = some .start → Sequences later :=
        fun _ less ended => ih _ (size ▸ less) ended rfl
      have continued : run (lead byte) rest = some .start := by
        rwa [← run_lead (by unfold InRange at tail; omega)]
      have leads := leads_lead byte
      generalize lead byte = st at leads continued
      cases leads with
      | ascii ascii => exact .one ascii (shorter rest (Nat.lt_succ_self _) continued)
      | stuck => exact absurd continued (run_stuck)
      | tail1 first =>
        obtain ⟨_, later, rfl, tail, ended⟩ := next_byte continued nofun fun _ => rfl
        exact .two first tail (shorter later (by simp only [length_cons]; omega) ended)
      | afterE0 | afterED =>
        exact three_of_run continued shorter nofun (by omega) (by omega) ⟨by omega, by omega⟩ (fun _ => rfl)
          (by omega) (by omega)
      | tail2 first =>
        obtain ⟨lower, upper⟩ := first
        exact three_of_run continued shorter nofun (by omega) (by omega) ⟨by omega, by omega⟩ (fun _ => rfl)
          (by omega) (by omega)
      | afterF0 | afterF4 =>
        exact four_of_run continued shorter nofun (by omega) (by omega) ⟨by omega, by omega⟩ (fun _ => rfl)
          (by omega) (by omega)
      | tail3 first =>
        obtain ⟨lower, upper⟩ := first
        exact four_of_run continued shorter nofun (by omega) (by omega) ⟨by omega, by omega⟩ (fun _ => rfl)
          (by omega) (by omega)

/-- The automaton accepts exactly the well-formed strings. -/
lemma accepted_iff : Accepted bytes ↔ WellFormed bytes :=
  ⟨fun accepted => (sequences_of_accepted accepted).wellFormed, accepted_of_wellFormed⟩

lemma wellFormed_iff : WellFormed bytes ↔ Sequences bytes :=
  ⟨fun formed => sequences_of_accepted (accepted_of_wellFormed formed), Sequences.wellFormed⟩

end

end FuchsiaSdk.Utf8
