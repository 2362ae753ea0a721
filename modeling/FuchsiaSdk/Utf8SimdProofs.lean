import FuchsiaSdk.Utf8SimdLanes

/-! The vectorized validator and the scalar one agree: the error vectors follow the UTF-8
automaton from vector to vector and chunk to chunk, over ASCII chunks and the padded last one. -/
namespace FuchsiaSdk.Utf8Simd
open Memory Lanes Utf8 Utf8Scalar List Option

/-! ## One vector -/

/-- What a check has found: it fails exactly where the automaton does. -/
inductive Outcome (clean : Prop) (window : State → Prop) : Option State → Prop where
  | failed : ¬ clean → Outcome clean window none
  | going {st : State} : clean → window st → Outcome clean window (some st)

section

variable {arch : ArchImpl} (lawful : Lawful arch) {st : State}
  (cur prev : Lanes arch.vectorSize)

/-- The bytes of a vector after those of the previous one. -/
def tape (i : Nat) : UInt8 :=
  if i < arch.vectorSize then prev.byteAt i else cur.byteAt (i - arch.vectorSize)

/-- The three bytes before an index, for the state after them. -/
def Window (i : Nat) (st : State) : Prop :=
  Consistent (tape cur prev (i - 3)) (tape cur prev (i - 2)) (tape cur prev (i - 1))
    st

/-- The last three bytes of a vector, for the state after them. -/
def Last (st : State) : Prop :=
  Consistent (cur.byteAt (arch.vectorSize - 3)) (cur.byteAt (arch.vectorSize - 2))
    (cur.byteAt (arch.vectorSize - 1)) st

def errorLane (lane : Nat) : UInt8 :=
  errorAt (tape cur prev (arch.vectorSize + lane - 3)) (tape cur prev (arch.vectorSize + lane - 2))
    (tape cur prev (arch.vectorSize + lane - 1)) (tape cur prev (arch.vectorSize + lane))

include lawful

lemma prev_eq_tape (small : amount ≤ 3) (lane : Fin arch.vectorSize) :
    arch.prev amount cur prev lane = tape cur prev (arch.vectorSize + lane.val - amount) := by
  have three := lawful.holds_three
  rw [lawful.prev amount cur prev lane small]
  unfold tape
  split
  · rw [if_pos (by omega)]
    congr 1
    omega
  · rw [if_neg (by omega)]
    congr 1
    omega

private lemma classifyRules_apply (lane : Fin arch.vectorSize) : classifyRules arch cur prev lane =
      ruleAt (tape cur prev (arch.vectorSize + lane.val - 1)).toNat ((cur lane).toNat / 16) := by
  have before := prev_eq_tape lawful cur prev (show 1 ≤ 3 by omega) lane
  have bound := (arch.prev 1 cur prev lane).toNat_lt
  have bound' := (cur lane).toNat_lt
  unfold classifyRules ruleAt
  rw [lawful.and, lawful.and, ← before]
  congr 2
  · apply lawful.lookup16
    rw [lawful.and, lawful.fill]
    exact and_low_half _
  · apply lawful.lookup16
    rw [lawful.shr4]
    exact (Nat.mod_eq_of_lt (by omega)).symm
  · apply lawful.lookup16
    rw [lawful.shr4]
    exact (Nat.mod_eq_of_lt (by omega)).symm

private lemma checkMultiByte_apply (lane : Fin arch.vectorSize) : checkMultiByte arch cur prev lane =
      if Continues (tape cur prev (arch.vectorSize + lane.val - 3))
        (tape cur prev (arch.vectorSize + lane.val - 2)) then 0x80 else 0 := by
  unfold checkMultiByte
  rw [lawful.and, lawful.fill, lawful.check2Or3Continuation,
    prev_eq_tape lawful cur prev (by omega) lane, prev_eq_tape lawful cur prev (by omega) lane]
  rfl

omit lawful in
lemma tape_cur (inside : lane < arch.vectorSize) :
    tape cur prev (arch.vectorSize + lane) = cur ⟨lane, inside⟩ := by
  unfold tape
  rw [if_neg (by omega), Nat.add_sub_cancel_left, byteAt_lt inside]

lemma xor_apply (lane : Fin arch.vectorSize) :
    arch.xor (classifyRules arch cur prev) (checkMultiByte arch cur prev) lane =
      errorLane cur prev lane.val := by
  rw [lawful.xor, classifyRules_apply lawful, checkMultiByte_apply lawful]
  unfold errorLane errorAt
  rw [tape_cur cur prev lane.isLt]

private lemma window_zero : Window cur prev arch.vectorSize st ↔ Last prev st := by
  have three := lawful.holds_three
  unfold Window Last tape
  rw [if_pos (by omega), if_pos (by omega), if_pos (by omega)]

private lemma window_full : Window cur prev (arch.vectorSize + arch.vectorSize) st ↔ Last cur st := by
  have three := lawful.holds_three
  unfold Window Last tape
  rw [if_neg (by omega), if_neg (by omega), if_neg (by omega)]
  congr! 2 <;> omega

omit lawful in
private lemma lane_follows (below : Outcome (∀ lane < i, errorLane cur prev lane = 0)
      (Window cur prev (arch.vectorSize + i)) result) :
    Outcome (∀ lane < i + 1, errorLane cur prev lane = 0) (Window cur prev (arch.vectorSize + i + 1))
      (result.bind fun st => run st [tape cur prev (arch.vectorSize + i)]) := by
  cases below with
  | failed dirty =>
    exact .failed fun clean => dirty fun lane inside => clean lane (Nat.lt_succ_of_lt inside)
  | @going st clean consistent =>
    have zero : errorLane cur prev i = 0 ↔ _ := errorAt_eq_zero consistent
    rw [bind_some, run]
    cases moved : step st (tape cur prev (arch.vectorSize + i)) with
    | none =>
      rw [moved] at zero
      exact .failed fun clean => absurd (zero.mp (clean i (Nat.lt_succ_self _)))
        Bool.false_ne_true
    | some =>
      rw [moved] at zero
      refine .going (fun lane inside => ?_) (consistent_step consistent moved)
      rcases Nat.lt_succ_iff_lt_or_eq.mp inside with below | rfl
      · exact clean lane below
      · exact zero.mpr rfl

/-- The lanes below an index follow the automaton over the bytes below it. -/
private lemma lanes_follow (window : Last prev st) (inside : i ≤ arch.vectorSize) :
    Outcome (∀ lane < i, errorLane cur prev lane = 0)
      (Window cur prev (arch.vectorSize + i)) (run st ((ofFn cur).take i)) := by
  induction i with
  | zero => exact .going nofun ((window_zero lawful cur prev).mpr window)
  | succ i ih =>
    have here : (ofFn cur)[i]? = some (tape cur prev (arch.vectorSize + i)) := by
      rw [tape_cur cur prev inside, List.getElem?_ofFn]
      exact dif_pos inside
    rw [take_add_one, here, run_append]
    exact lane_follows cur prev (ih (Nat.le_of_succ_le inside))

private lemma vector_follows (window : Last prev st) :
    Outcome (∀ lane, arch.xor (classifyRules arch cur prev) (checkMultiByte arch cur prev) lane = 0)
      (Last cur) (run st (ofFn cur)) := by
  have follows := lanes_follow lawful cur prev window le_rfl
  rw [take_of_length_le (Nat.le_of_eq length_ofFn)] at follows
  generalize run st (ofFn cur) = result at follows
  cases follows with
  | failed dirty =>
    refine .failed fun clean => dirty fun lane inside => ?_
    rw [← clean ⟨lane, inside⟩, xor_apply lawful]
  | going clean window =>
    refine .going (fun lane => ?_) ((window_full lawful cur prev).mp window)
    rw [xor_apply lawful]
    exact clean lane.val lane.isLt

end

/-! ## One chunk -/

section

variable {arch : ArchImpl} (lawful : Lawful arch) {progress : Progress arch}
  {result : Option State} {cur : VectorChunk arch} {memory : Memory}

/-- The error vector is zero while the automaton has not stopped, and the last bytes are
those before its state. -/
def Tracks (progress : Progress arch) (result : Option State) : Prop :=
  Outcome (∀ lane, progress.error lane = 0) (Last progress.prev) result

include lawful

lemma or_zero_iff (left : Lanes arch.vectorSize) :
    (∀ lane, arch.or left right lane = 0) ↔ (∀ lane, left lane = 0) ∧ ∀ lane, right lane = 0 := by
  rw [← forall_and]
  refine forall_congr' fun lane => ?_
  rw [lawful.or]
  exact or_eq_zero_iff

private lemma processVector_tracks (tracks : Tracks progress result) (vector : Lanes arch.vectorSize) :
    Tracks (processVector arch progress vector) (result.bind fun st => run st (ofFn vector)) := by
  cases tracks with
  | failed dirty => exact .failed fun clean => dirty ((or_zero_iff lawful _).mp clean).1
  | @going st clean window =>
    have follows := vector_follows lawful vector progress.prev window
    rw [bind_some]
    generalize run st (ofFn vector) = result at follows
    cases follows with
    | failed dirty => exact .failed fun clean => dirty ((or_zero_iff lawful _).mp clean).2
    | going clean' window => exact .going ((or_zero_iff lawful _).mpr ⟨clean, clean'⟩) window

/-- The bytes of the vectors. -/
private lemma processVectors_tracks (tracks : Tracks progress result) (vectors : VectorChunk arch) :
    Tracks (vectors.foldl (processVector arch) progress)
      (result.bind fun st => run st (vectors.flatMap ofFn)) := by
  induction vectors generalizing progress result with
  | nil =>
    have same : (result.bind fun st => run st []) = result := bind_fun_some result
    exact same.symm ▸ tracks
  | cons vector _ ih =>
    have later := ih (processVector_tracks lawful tracks vector)
    rw [bind_assoc] at later
    simp only [flatMap_cons, run_append]
    exact later

lemma isAscii_or (left : Lanes arch.vectorSize) : arch.isAscii (arch.or left right) = true ↔
      arch.isAscii left = true ∧ arch.isAscii right = true := by
  rw [lawful.isAscii, lawful.isAscii, lawful.isAscii, ← forall_and]
  refine forall_congr' fun lane => ?_
  rw [lawful.or]
  exact or_small_iff

private lemma isAscii_foldl (vectors : VectorChunk arch) : arch.isAscii (vectors.foldl arch.or first) = true ↔
      arch.isAscii first = true ∧ ∀ vector ∈ vectors, arch.isAscii vector = true := by
  induction vectors generalizing first with
  | nil => exact (and_iff_left nofun).symm
  | cons vector _ ih => rw [foldl_cons, ih, isAscii_or lawful, forall_mem_cons, and_assoc]

lemma isAscii_fill_zero : arch.isAscii (arch.fill 0) = true := by
  rw [lawful.isAscii]
  intro _
  rw [lawful.fill]
  decide

lemma isAsciiChunk_iff : isAsciiChunk arch cur = true ↔ ∀ vector ∈ cur, arch.isAscii vector = true := by
  unfold isAsciiChunk
  split
  · rw [isAscii_or lawful, isAscii_or lawful, isAscii_or lawful]
    simp only [forall_mem_cons, and_assoc]
    exact (and_congr_right fun _ => and_congr_right fun _ => and_congr_right fun _ =>
      (and_iff_left nofun).symm)
  · rw [isAscii_or lawful]
    simp only [forall_mem_cons]
    exact and_congr_right fun _ => (and_iff_left nofun).symm
  · rw [isAscii_foldl lawful]
    exact and_iff_right (isAscii_fill_zero lawful)

lemma ascii_of_mem (ascii : isAsciiChunk arch cur = true) : ∀ byte ∈ cur.flatMap ofFn, byte.toNat < 0x80 := by
  intro byte mem
  obtain ⟨vector, inside, mem⟩ := mem_flatMap.mp mem
  obtain ⟨lane, rfl⟩ := mem_ofFn.mp mem
  exact (lawful.isAscii vector).mp ((isAsciiChunk_iff lawful).mp ascii vector inside) lane

omit lawful in
private lemma incompleteTable_front : ∀ i : Fin 32, i.val < 29 → incompleteTable.get i = 0xFF := by
  decide

lemma checkIncomplete_lane (vector : Lanes arch.vectorSize) (lane : Fin arch.vectorSize)
    (i : Fin 32) (same : lane.val + 32 = i.val + arch.vectorSize) :
    checkIncomplete arch vector lane = 0 ↔
      (vector.byteAt lane.val).toNat ≤ (incompleteTable.get i).toNat := by
  unfold checkIncomplete
  rw [← UInt8.toNat_inj, lawful.saturatingSub, lawful.set32 _ _ _ same, byteAt_eq]
  exact Nat.sub_eq_zero_iff_le

/-- Whether a vector ends inside an encoding. -/
lemma checkIncomplete_iff (vector : Lanes arch.vectorSize) : (∀ lane, checkIncomplete arch vector lane = 0) ↔
      (vector.byteAt (arch.vectorSize - 1)).toNat < 0xC0 ∧
        ¬ Continues (vector.byteAt (arch.vectorSize - 3)) (vector.byteAt (arch.vectorSize - 2)) := by
  have three := lawful.holds_three
  have fits := lawful.fits_table
  have first := checkIncomplete_lane lawful vector ⟨arch.vectorSize - 1, by omega⟩ 31
    (by dsimp only [Fin.isValue, Fin.coe_ofNat_eq_mod]; omega)
  have second := checkIncomplete_lane lawful vector ⟨arch.vectorSize - 2, by omega⟩ 30
    (by dsimp only [Fin.isValue, Fin.coe_ofNat_eq_mod]; omega)
  have third := checkIncomplete_lane lawful vector ⟨arch.vectorSize - 3, by omega⟩ 29
    (by dsimp only [Fin.isValue, Fin.coe_ofNat_eq_mod]; omega)
  change _ ↔ (vector.byteAt (arch.vectorSize - 1)).toNat ≤ 0xBF at first
  change _ ↔ (vector.byteAt (arch.vectorSize - 2)).toNat ≤ 0xDF at second
  change _ ↔ (vector.byteAt (arch.vectorSize - 3)).toNat ≤ 0xEF at third
  unfold Continues
  refine ⟨fun zero => ?_, fun complete lane => ?_⟩
  · have low := first.mp (zero _)
    have low' := second.mp (zero _)
    have low'' := third.mp (zero _)
    omega
  · by_cases front : lane.val + 3 < arch.vectorSize
    · rw [checkIncomplete_lane lawful vector lane ⟨lane.val + 32 - arch.vectorSize, by omega⟩
        (by dsimp only; omega), incompleteTable_front _ (by dsimp only; omega)]
      exact Nat.le_of_lt_succ (UInt8.toNat_lt _)
    · have back : lane = ⟨arch.vectorSize - 1, by omega⟩ ∨ lane = ⟨arch.vectorSize - 2, by omega⟩ ∨
          lane = ⟨arch.vectorSize - 3, by omega⟩ := by
        simp only [Fin.ext_iff]
        omega
      rcases back with same | same | same <;> rw [same]
      · exact first.mpr (by omega)
      · exact second.mpr (by omega)
      · exact third.mpr (by omega)

omit lawful in
private lemma step_ascii (inner : st ≠ .start) (ascii : byte.toNat < 0x80) : step st byte = none := by
  have outside : ∀ {low high : Nat} {next : State}, 0x80 ≤ low → within low high byte next = none :=
    fun lower => if_neg fun inside => by
      have above := inside.1
      omega
  cases st with
  | start => exact absurd rfl inner
  | stuck => rfl
  | tail1 | tail2 | tail3 | afterE0 | afterED | afterF0 | afterF4 => exact outside (by omega)

omit lawful in
lemma run_ascii (ascii : ∀ byte ∈ bytes, byte.toNat < 0x80) : run .start bytes = some .start := by
  induction bytes with
  | nil => rfl
  | cons byte _ ih =>
    have first := ascii byte mem_cons_self
    rw [run_lead (.inl first), lead_of (.ascii first)]
    exact ih fun other mem => ascii other (mem_cons_of_mem _ mem)

omit lawful in
lemma run_ascii_inner (inner : st ≠ .start)
    (ascii : ∀ byte ∈ bytes, byte.toNat < 0x80) (nonempty : bytes ≠ []) : run st bytes = none := by
  cases bytes with
  | nil => exact absurd rfl nonempty
  | cons byte =>
    rw [run, step_ascii inner (ascii byte mem_cons_self)]
    rfl

/-- A vector of ASCII ends where an encoding ends. -/
lemma complete_of_isAscii (ascii : arch.isAscii vector = true) :
    (vector.byteAt (arch.vectorSize - 1)).toNat < 0x80 ∧
      ¬ Continues (vector.byteAt (arch.vectorSize - 3)) (vector.byteAt (arch.vectorSize - 2)) := by
  have three := lawful.holds_three
  have small : ∀ i < arch.vectorSize, (vector.byteAt i).toNat < 0x80 := by
    intro i inside
    rw [byteAt_lt inside]
    exact (lawful.isAscii vector).mp ascii _
  have second := small (arch.vectorSize - 2) (by omega)
  have third := small (arch.vectorSize - 3) (by omega)
  refine ⟨small _ (by omega), ?_⟩
  unfold Continues
  omega

lemma last_of_isAscii (ascii : arch.isAscii vector = true) : Last vector .start := by
  obtain ⟨small, fresh⟩ := complete_of_isAscii lawful ascii
  rw [← lead_of (.ascii small)]
  apply Consistent.led
  · unfold InRange
    omega
  · exact fresh

private lemma asciiChunk_tracks (tracks : Tracks progress result) (ascii : isAsciiChunk arch cur = true)
    (ends : cur.getLast? = some last) : Tracks (processChunk arch cur progress)
      (result.bind fun st => run st (cur.flatMap ofFn)) := by
  have three := lawful.holds_three
  have mem : last ∈ cur := mem_of_getLast? ends
  have small := ascii_of_mem lawful ascii
  have nonempty : cur.flatMap ofFn ≠ [] := by
    intro empty
    have gone := flatMap_eq_nil_iff.mp empty last mem
    have length := congrArg length gone
    rw [length_ofFn, length_nil] at length
    omega
  unfold processChunk
  rw [if_pos ascii, ends]
  cases tracks with
  | failed dirty => exact .failed fun clean => dirty ((or_zero_iff lawful _).mp clean).1
  | @going st clean window =>
    have complete := (checkIncomplete_iff lawful progress.prev).trans (consistent_start_iff window)
    rw [bind_some]
    by_cases start : st = .start
    · rw [start, run_ascii small]
      exact .going ((or_zero_iff lawful _).mpr ⟨clean, complete.mpr start⟩)
        (last_of_isAscii lawful ((isAsciiChunk_iff lawful).mp ascii last mem))
    · rw [run_ascii_inner start small nonempty]
      exact .failed fun clean => start (complete.mp ((or_zero_iff lawful _).mp clean).2)

lemma processChunk_tracks (tracks : Tracks progress result) (ends : cur.getLast? = some last) :
    Tracks (processChunk arch cur progress) (result.bind fun st => run st (cur.flatMap ofFn)) := by
  by_cases ascii : isAsciiChunk arch cur = true
  · exact asciiChunk_tracks lawful tracks ascii ends
  unfold processChunk
  rw [if_neg ascii]
  exact processVectors_tracks lawful tracks cur

/-- The string is accepted when nothing was found and nothing is missing at its end. -/
lemma finish_iff (tracks : Tracks progress result) : finish arch progress = true ↔ result = some .start := by
  unfold finish
  rw [lawful.isAllZero]
  cases tracks with
  | failed dirty =>
    refine ⟨fun clean => absurd ?_ dirty, nofun⟩
    split at clean
    · exact ((or_zero_iff lawful _).mp clean).1
    · exact clean
  | @going _ clean window =>
    rw [some.injEq]
    split
    · rw [or_zero_iff lawful, and_iff_right clean]
      exact (checkIncomplete_iff lawful progress.prev).trans (consistent_start_iff window)
    rename_i ascii
    rw [Bool.not_eq_true', Bool.not_eq_false] at ascii
    obtain ⟨_, fresh⟩ := complete_of_isAscii lawful ascii
    exact iff_of_true clean ((consistent_start_iff window).mp ⟨by omega, fresh⟩)

end

/-! ## Loading and copying -/

section

variable (arch : ArchImpl) (memory : Memory)

private lemma bytes_loadVectors : ((range vectors).map fun i =>
      (loadu memory (pos + i * arch.vectorSize) : Lanes arch.vectorSize)).flatMap
        ofFn = load memory pos (arch.vectorSize * vectors) := by
  induction vectors with
  | zero => rfl
  | succ vectors ih =>
    rw [range_succ, map_append, flatMap_append, ih, map_singleton,
      flatMap_singleton, ofFn_loadu, Nat.mul_succ, load_add, Nat.mul_comm vectors]

lemma bytes_loadChunk : (loadChunk arch memory pos).flatMap ofFn = load memory pos (getSize arch) :=
  bytes_loadVectors ..

lemma loadChunk_ends (pos : Nat) : ∃ last, (loadChunk arch memory pos).getLast? = some last := by
  have nonempty : loadChunk arch memory pos ≠ [] := by
    rw [loadChunk, ne_eq, map_eq_nil_iff, range_eq_nil]
    unfold getVectorCount
    omega
  exact ⟨_, getLast?_eq_some_getLast nonempty⟩

variable {arch memory}

private lemma storeChunk_eq : storeChunk arch memory pos cur = store memory pos (cur.flatMap ofFn) := by
  induction cur generalizing memory pos with
  | nil => exact (store_nil).symm
  | cons vector rest ih =>
    have next := store_append memory pos (ofFn vector) (rest.flatMap ofFn)
    rw [length_ofFn] at next
    rw [storeChunk, ih]
    exact next

end

/-- The memory once bytes have been copied, if they are to be. -/
def copied (doCopy : Bool) (memory : Memory) (dst : Nat) (bytes : List UInt8) : Memory :=
  if doCopy then store memory dst bytes else memory

section

variable {arch : ArchImpl} {memory : Memory} {doCopy : Bool} {src dst size off count : Nat}

private lemma copied_append (first second : List UInt8) :
    copied doCopy (copied doCopy memory dst first) (dst + first.length) second =
      copied doCopy memory dst (first ++ second) := by
  cases doCopy with
  | false => rfl
  | true => exact store_append ..

/-- The source does not overlap what is written to. -/
def Apart (doCopy : Bool) (src dst size : Nat) : Prop :=
  doCopy = true → src + size ≤ dst ∨ dst + size ≤ src

private lemma load_copied (apart : Apart doCopy src dst size)
    (fits : bytes.length ≤ size) (inside : off + count ≤ size) :
    load (copied doCopy memory dst bytes) (src + off) count = load memory (src + off) count := by
  cases doCopy with
  | false => rfl
  | true =>
    have apart := apart rfl
    exact load_congr (store_agreeOn (by omega))

/-- What has been copied when the bytes before an offset have been. -/
def copiedTo (doCopy : Bool) (memory : Memory) (src dst off : Nat) : Memory :=
  copied doCopy memory dst (load memory src off)

lemma load_copiedTo (apart : Apart doCopy src dst size) {done : Nat} (fits : done ≤ size)
    (inside : off + count ≤ size) : load (copiedTo doCopy memory src dst done) (src + off) count =
      load memory (src + off) count :=
  load_copied apart (by rwa [length_load]) inside

lemma copiedTo_add : copied doCopy (copiedTo doCopy memory src dst off) (dst + off)
      (load memory (src + off) count) = copiedTo doCopy memory src dst (off + count) := by
  have next := @copied_append memory doCopy dst (load memory src off)
    (load memory (src + off) count)
  rw [length_load, ← load_add] at next
  exact next

/-- A round of either loop, on what the rounds before it leave. -/
lemma copyChunk_eq (apart : Apart doCopy src dst size) (fits : off + getSize arch ≤ size) :
    copyChunk arch doCopy dst (loadChunk arch (copiedTo doCopy memory src dst off) (src + off)) off
        (copiedTo doCopy memory src dst off) = copiedTo doCopy memory src dst (off + getSize arch) := by
  have same : copyChunk arch doCopy dst
      (loadChunk arch (copiedTo doCopy memory src dst off) (src + off)) off
      (copiedTo doCopy memory src dst off) =
      copied doCopy (copiedTo doCopy memory src dst off) (dst + off)
        (load memory (src + off) (getSize arch)) := by
    unfold copyChunk copied
    rw [storeChunk_eq, bytes_loadChunk, load_copiedTo apart (by omega) fits]
  rw [same, copiedTo_add]

end

/-! ## Whole strings -/

section

variable {arch : ArchImpl} {memory : Memory} {doCopy : Bool} {src dst size off chunks : Nat}

/-- What the loop over leading ASCII chunks leaves. -/
structure SkippedAscii (arch : ArchImpl) (memory : Memory) (doCopy : Bool) (src dst stop : Nat)
    (fast : FastPath) : Prop where
  memory_eq : fast.memory = copiedTo doCopy memory src dst fast.offset
  ascii : ∀ byte ∈ load memory src fast.offset, byte.toNat < 0x80
  stop_eq : fast.offset + fast.chunks * getSize arch = stop
  chunks_eq : fast.encounteredNonAscii = false → fast.chunks = 0

variable (lawful : Lawful arch) (apart : Apart doCopy src dst size)

include lawful apart

omit lawful in
/-- The bytes of a chunk, whatever has been copied before it. -/
lemma bytes_chunk (fits : off + getSize arch ≤ size) :
    (loadChunk arch (copiedTo doCopy memory src dst off) (src + off)).flatMap ofFn =
      load memory (src + off) (getSize arch) := by
  rw [bytes_loadChunk, load_copiedTo apart (by omega) fits]

private lemma fastPath_skips (ascii : ∀ byte ∈ load memory src off, byte.toNat < 0x80)
    (fits : off + chunks * getSize arch ≤ size) :
    SkippedAscii arch memory doCopy src dst (off + chunks * getSize arch)
      (fastPath arch doCopy src dst chunks off (copiedTo doCopy memory src dst off)) := by
  induction chunks generalizing off with
  | zero => exact ⟨rfl, ascii, rfl, fun _ => rfl⟩
  | succ chunks ih =>
    rw [Nat.succ_mul] at fits ⊢
    rw [fastPath, copyChunk_eq apart (by omega)]
    split
    · exact ⟨rfl, ascii, congrArg (off + ·) (Nat.succ_mul ..), nofun⟩
    rename_i skipped
    rw [Bool.not_eq_true', Bool.not_eq_false] at skipped
    have small := ascii_of_mem lawful skipped
    rw [bytes_chunk apart (by omega)] at small
    have longer : ∀ byte ∈ load memory src (off + getSize arch), byte.toNat < 0x80 := by
      intro byte mem
      rw [load_add, mem_append] at mem
      exact mem.elim (ascii byte) (small byte)
    have later := ih longer (by omega)
    rwa [Nat.add_assoc, Nat.add_comm (getSize arch)] at later

private lemma processChunks_tracks (tracks : Tracks progress (run .start (load memory src off)))
    (fits : off + chunks * getSize arch ≤ size) :
    ∃ progress', processChunks arch doCopy src dst chunks off
        (copiedTo doCopy memory src dst off) progress = (off + chunks * getSize arch,
          copiedTo doCopy memory src dst (off + chunks * getSize arch), progress') ∧
      Tracks progress' (run .start (load memory src (off + chunks * getSize arch))) := by
  induction chunks generalizing off progress with
  | zero =>
    rw [Nat.zero_mul]
    exact ⟨progress, rfl, tracks⟩
  | succ chunks ih =>
    rw [Nat.succ_mul] at fits ⊢
    rw [processChunks, copyChunk_eq apart (by omega)]
    obtain ⟨_, ends⟩ :=
      loadChunk_ends arch (copiedTo doCopy memory src dst off) (src + off)
    have next := processChunk_tracks lawful tracks ends
    rw [bytes_chunk apart (by omega), ← run_append, ← load_add] at next
    have later := ih next (by omega)
    rwa [Nat.add_assoc, Nat.add_comm (getSize arch)] at later

omit lawful apart in
/-- A padded string is read like the string. -/
private lemma run_padded (positive : 0 < padding) :
    run .start (bytes ++ replicate padding 0) = some .start ↔ Accepted bytes := by
  have zeroes : ∀ byte ∈ replicate padding (0 : UInt8), byte.toNat < 0x80 := by
    intro byte mem
    rw [eq_of_mem_replicate mem]
    decide
  have nonempty : replicate padding (0 : UInt8) ≠ [] := by
    rw [ne_eq, replicate_eq_nil_iff]
    omega
  unfold Accepted
  rw [run_append]
  cases run .start bytes with
  | none => exact Iff.rfl
  | some st =>
    rw [bind_some, some.injEq]
    by_cases start : st = .start
    · rw [start, run_ascii zeroes]
      exact iff_of_true rfl rfl
    · rw [run_ascii_inner start zeroes nonempty]
      exact iff_of_false nofun start

/-- The answer is that of the scalar validator, and a part of the string has been copied:
all of it when it is valid. -/
structure Exact (memory : Memory) (doCopy : Bool) (src dst size : Nat) (answer : Bool × Memory) :
    Prop where
  valid : answer.1 = isValidUtf8Scalar (some (load memory src size))
  copied : ∃ done ≤ size, answer.2 = copiedTo doCopy memory src dst done ∧
    (answer.1 = true → done = size)

omit lawful apart in
lemma exact_of_iff (same : valid = true ↔ Accepted (load memory src size)) :
    Exact memory doCopy src dst size (valid, copiedTo doCopy memory src dst size) := by
  refine ⟨Bool.eq_iff_iff.mpr ?_, size, le_rfl, rfl, fun _ => rfl⟩
  rw [isValidUtf8Scalar_some, full_iff, ← accepted_iff]
  exact same

omit lawful in
/-- The scalar validator on what follows ASCII. -/
lemma runScalar_exact (ascii : ∀ byte ∈ load memory src off, byte.toNat < 0x80) (inside : off ≤ size) :
    Exact memory doCopy src dst size (runScalar doCopy (copiedTo doCopy memory src dst off)
      (some (src + off)) (dst + off) (size - off)) := by
  have loaded := @load_copiedTo memory doCopy src dst size off (size - off) apart off
    inside (by omega)
  have whole : load memory src size = load memory src off ++
      load memory (src + off) (size - off) := by
    rw [← load_add, Nat.add_sub_cancel' inside]
  have same : isValidUtf8Scalar (some (load memory (src + off) (size - off))) =
      isValidUtf8Scalar (some (load memory src size)) := by
    rw [isValidUtf8Scalar_some, isValidUtf8Scalar_some, whole, full_skipped ascii]
  unfold runScalar validateAndCopyUtf8Scalar
  rw [map_some, loaded]
  dsimp only
  rw [same]
  cases doCopy with
  | false => exact ⟨rfl, size, le_rfl, rfl, fun _ => rfl⟩
  | true =>
    by_cases valid : isValidUtf8Scalar (some (load memory src size)) = true
    · have stored := @copiedTo_add memory true src dst off (size - off)
      rw [Nat.add_sub_cancel' inside] at stored
      rw [if_pos rfl, if_pos valid]
      exact ⟨valid.symm, size, le_rfl, stored, fun _ => rfl⟩
    · rw [if_pos rfl, if_neg valid]
      exact ⟨(Bool.eq_false_iff.mpr valid).symm, off, inside, rfl, nofun⟩

omit lawful apart in
private lemma copiedTo_zero : copiedTo doCopy memory src dst 0 = memory := by
  cases doCopy with
  | false => rfl
  | true => exact store_nil ..

omit apart in
/-- The last chunk, filled up with zeroes. -/
private lemma padded_tracks (inside : off < size) (short : size - off < getSize arch)
    (tracks : Tracks progress (run .start (load memory src off))) : finish arch (processChunk arch
      (loadChunk arch (ofBytes (load memory (src + off) (size - off))) 0) progress) = true ↔
      Accepted (load memory src size) := by
  obtain ⟨_, ends⟩ :=
    loadChunk_ends arch (ofBytes (load memory (src + off) (size - off))) 0
  have next := processChunk_tracks lawful tracks ends
  have fits : (load memory (src + off) (size - off)).length ≤ getSize arch := by
    rw [length_load]
    omega
  rw [bytes_loadChunk, load_ofBytes_padded fits, ← run_append, ← append_assoc, ← load_add,
    Nat.add_sub_cancel' (Nat.le_of_lt inside), length_load] at next
  rw [finish_iff lawful next]
  exact run_padded (by omega)

lemma runSimd_exact : Exact memory doCopy src dst size
      (runValidateAndCopyUtf8Simd arch doCopy memory (some src) dst size) := by
  have positive : 0 < getSize arch := by
    have three := lawful.holds_three
    unfold getSize getVectorCount
    exact Nat.mul_pos (by omega) (by omega)
  have untouched := @copiedTo_zero memory doCopy src dst
  have nothing : ∀ byte ∈ load memory src 0, byte.toNat < 0x80 := fun _ => nofun
  unfold runValidateAndCopyUtf8Simd
  split
  · have exact := runScalar_exact apart nothing (Nat.zero_le size)
    rwa [untouched] at exact
  have rounds : 0 + size / getSize arch * getSize arch ≤ size := by
    rw [Nat.zero_add]
    exact Nat.div_mul_le_self ..
  have skipped := fastPath_skips lawful apart nothing rounds
  rw [untouched] at skipped
  dsimp only
  generalize fastPath arch doCopy src dst (size / getSize arch) 0 memory = fast at skipped ⊢
  have fresh : Tracks ⟨arch.fill 0, arch.fill 0⟩ (run .start (load memory src fast.offset)) := by
    rw [run_ascii skipped.ascii]
    exact .going (lawful.fill 0) (last_of_isAscii lawful (isAscii_fill_zero lawful))
  rw [← skipped.stop_eq] at rounds
  obtain ⟨_, processed, tracks⟩ := processChunks_tracks lawful apart fresh rounds
  rw [skipped.memory_eq, processed, skipped.stop_eq, Nat.zero_add]
  rw [skipped.stop_eq, Nat.zero_add] at tracks rounds
  have remainder := Nat.mod_lt size positive
  have division := Nat.div_add_mod' size (getSize arch)
  by_cases left : size / getSize arch * getSize arch < size
  · rw [if_pos left]
    by_cases encountered : fast.encounteredNonAscii = true
    · have whole := Nat.add_sub_cancel' rounds
      have stored := @copiedTo_add memory doCopy src dst (size / getSize arch * getSize arch)
        (size - size / getSize arch * getSize arch)
      rw [whole] at stored
      rw [encountered, load_copiedTo apart rounds (by omega)]
      unfold copied at stored
      rw [stored]
      exact exact_of_iff (padded_tracks lawful left (by omega) tracks)
    · have encountered := Bool.eq_false_iff.mpr encountered
      have last : fast.offset = size / getSize arch * getSize arch := by
        have stop := skipped.stop_eq
        rwa [skipped.chunks_eq encountered, Nat.zero_mul, Nat.zero_add] at stop
      rw [encountered, ← last]
      exact runScalar_exact apart skipped.ascii (by omega)
  · have whole : size / getSize arch * getSize arch = size := by omega
    rw [if_neg left, whole]
    rw [whole] at tracks
    exact exact_of_iff (finish_iff lawful tracks)

end

/-! ## The architectures -/

inductive Arch where
  | avx2
  | ssse3
  | neon
  deriving DecidableEq, Repr

def Arch.impl : Arch → ArchImpl
  | .avx2 => Utf8Simd.avx2
  | .ssse3 => Utf8Simd.ssse3
  | .neon => Utf8Simd.neon

lemma Arch.lawful (arch : Arch) : Lawful arch.impl := by
  cases arch with
  | avx2 => exact avx2_lawful
  | ssse3 => exact ssse3_lawful
  | neon => exact neon_lawful

lemma runSimd_null : runValidateAndCopyUtf8Simd arch doCopy memory none dst size = (false, memory) := by
  unfold runValidateAndCopyUtf8Simd
  split
  · cases doCopy with
    | false | true => rfl
  · rfl

private lemma isValidUtf8Simd_eq (arch : Arch) : isValidUtf8Simd arch.impl memory src size =
      isValidUtf8Scalar (src.map fun start => load memory start size) := by
  cases src with
  | none => exact congrArg Prod.fst runSimd_null
  | some start =>
    have nowhere : Apart false start 0 size := fun copies => absurd copies Bool.false_ne_true
    exact (runSimd_exact arch.lawful nowhere).valid

/-- On each architecture the answers are those of the scalar validator, with and without a
copy to somewhere else; and the copy of a valid string is the string, with nothing else
touched. -/
theorem simd_agrees_with_scalar (arch : Arch) (memory : Memory) (src : Option Nat) (size : Nat) :
    isValidUtf8Simd arch.impl memory src size =
        isValidUtf8Scalar (src.map fun start => load memory start size) ∧
      ∀ dst, (∀ start ∈ src, start + size ≤ dst ∨ dst + size ≤ start) →
        (validateAndCopyUtf8Simd arch.impl memory src dst size).1 =
          isValidUtf8Scalar (src.map fun start => load memory start size) ∧
        ((validateAndCopyUtf8Simd arch.impl memory src dst size).1 = true →
          some (load (validateAndCopyUtf8Simd arch.impl memory src dst size).2 dst size) =
            src.map fun start => load memory start size) ∧
        ∀ addr, addr < dst ∨ dst + size ≤ addr →
          (validateAndCopyUtf8Simd arch.impl memory src dst size).2 addr = memory addr := by
  refine ⟨isValidUtf8Simd_eq arch, fun dst apart => ?_⟩
  unfold validateAndCopyUtf8Simd
  cases src with
  | none =>
    rw [runSimd_null]
    exact ⟨rfl, nofun, fun _ _ => rfl⟩
  | some start =>
    have apart : Apart true start dst size := fun _ => apart start rfl
    have exact := @runSimd_exact _ memory true start dst size arch.lawful apart
    generalize runValidateAndCopyUtf8Simd arch.impl true memory (some start) dst size = ran at exact
    obtain ⟨valid, done, _, stored, all⟩ := exact
    have stored : ran.2 = store memory dst (load memory start done) := stored
    rw [stored]
    refine ⟨valid, fun accepted => ?_, fun addr outside => ?_⟩
    · rw [all accepted, load_store_of_length (length_load ..)]
      rfl
    · exact store_outside (by rw [length_load]; omega)

/-- Forty characters of three bytes, copied past their end. -/
theorem simd_agrees_with_scalar_euros :
    load (validateAndCopyUtf8Simd Arch.neon.impl
      (ofBytes (List.replicate 40 [0xE2, 0x82, 0xAC]).flatten) (some 0) 200 120).2 200 120 =
      (List.replicate 40 [0xE2, 0x82, 0xAC]).flatten := by
  have loaded : load (ofBytes (replicate 40 [0xE2, 0x82, 0xAC]).flatten) 0 120 =
      (replicate 40 [0xE2, 0x82, 0xAC]).flatten := load_ofBytes
  have apart : ∀ start ∈ some 0, start + 120 ≤ 200 ∨ 200 + 120 ≤ start := by
    intro start member
    cases member
    decide
  obtain ⟨valid, copied, _⟩ := (simd_agrees_with_scalar .neon
    (ofBytes (replicate 40 [0xE2, 0x82, 0xAC]).flatten) (some 0) 120).2 200 apart
  rw [map_some, loaded] at valid copied
  exact some.inj (copied (valid.trans (by decide +kernel)))

end FuchsiaSdk.Utf8Simd
