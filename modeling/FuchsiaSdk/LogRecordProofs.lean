import FuchsiaSdk.LogRecord

/-! What the log encoder leaves in its buffer, and which records the parser reads back:
those without a signed value, whose header is one word short. -/
namespace FuchsiaSdk.LogRecord
open Memory List Option
open ArgumentFields (sizeWords nameRefVal nameRefMSB)

/-! ## Headers as numbers -/

lemma Field.get_eq {field : Field} {first width : Nat} (v : Nat)
    (starts : field.first = first) (small : first < 64)
    (wide : field.last - field.first + 1 = width) : field.get v = v / 2 ^ first % 2 ^ width := by
  unfold Field.get Field.kMask
  rw [wide, Nat.one_shiftLeft, Nat.and_two_pow_sub_one_eq_mod, Nat.shiftRight_eq_div_pow, starts,
    Nat.mod_eq_of_lt small]

/-- A field above the bits that are set. -/
lemma or_make {field : Field} {first below v : Nat} (starts : field.first = first)
    (above : below < 2 ^ first) (fits : v * 2 ^ first < 2 ^ 64) :
    below ||| field.make v = below + 2 ^ first * v := by
  unfold Field.make
  rw [starts, Nat.shiftLeft_eq, Nat.mod_eq_of_lt fits, Nat.mul_comm, Nat.or_comm,
    ← Nat.two_pow_add_eq_or_of_lt above, Nat.add_comm]

/-- The header of an argument. -/
def headerSum (type size keySize reference : Nat) : Nat :=
  type + 2 ^ 4 * size + 2 ^ 16 * keySize + 2 ^ 31 * (if 0 < keySize then 1 else 0) +
    2 ^ 32 * reference

section

variable {type size keySize reference : Nat}

lemma flag_lt (keySize : Nat) : (if 0 < keySize then 1 else 0) < 2 := by
  split <;> omega

private lemma computeArgHeader_eq (small : type < 2 ^ 4)
    (fits : st.argSize < 2 ^ 12) (short : st.currentKeySize < 2 ^ 15) :
    computeArgHeader st type = headerSum type st.argSize st.currentKeySize 0 := by
  have flag := flag_lt st.currentKeySize
  unfold computeArgHeader headerSum
  generalize (if 0 < st.currentKeySize then 1 else 0) = inline at flag ⊢
  have first := @or_make ArgumentFields.type 0 0 type rfl (by omega) (by omega)
  rw [Nat.zero_or] at first
  rw [first, @or_make sizeWords 4 _ _ rfl (by omega) (by omega),
    @or_make nameRefVal 16 _ _ rfl (by omega) (by omega),
    @or_make nameRefMSB 31 _ _ rfl (by omega) (by omega),
    @or_make reservedValue 32 _ _ rfl (by omega) (by simp)]
  omega

private lemma headerSum_or {field : Field} (starts : field.first = 32) (small : type < 2 ^ 4)
    (fits : size < 2 ^ 12) (short : keySize < 2 ^ 15) (bound : reference < 2 ^ 16) :
    headerSum type size keySize 0 ||| field.make reference = headerSum type size keySize reference := by
  have flag := flag_lt keySize
  unfold headerSum
  generalize (if 0 < keySize then 1 else 0) = inline at flag ⊢
  rw [or_make starts (by omega) (by omega)]
  omega

/-- The fields of a header that fit. -/
structure Fits (type size keySize reference : Nat) : Prop where
  small : type < 2 ^ 4
  fits : size < 2 ^ 12
  short : keySize < 2 ^ 15
  bound : reference < 2 ^ 16

private lemma headerSum_lt (fits : Fits type size keySize reference) :
    headerSum type size keySize reference < 256 ^ 8 := by
  obtain ⟨_, fits, _, _⟩ := fits
  have flag := flag_lt keySize
  unfold headerSum
  omega

lemma headerSum_fields (fits : Fits type size keySize reference) :
    ArgumentFields.type.get (headerSum type size keySize reference) = type ∧
      sizeWords.get (headerSum type size keySize reference) = size ∧
      nameRefVal.get (headerSum type size keySize reference) = keySize ∧
      nameRefMSB.get (headerSum type size keySize reference) = if 0 < keySize then 1 else 0 := by
  obtain ⟨_, fits, _, _⟩ := fits
  have flag := flag_lt keySize
  rw [@Field.get_eq ArgumentFields.type 0 4 _ rfl (by omega) rfl,
    @Field.get_eq sizeWords 4 12 _ rfl (by omega) rfl,
    @Field.get_eq nameRefVal 16 15 _ rfl (by omega) rfl,
    @Field.get_eq nameRefMSB 31 1 _ rfl (by omega) rfl]
  unfold headerSum
  omega

/-- The field above the name, which holds what a value refers to. -/
lemma get_reference {field : Field} {width : Nat} (fits : Fits type size keySize reference)
    (starts : field.first = 32) (wide : field.last - field.first + 1 = width)
    (narrow : reference < 2 ^ width) : field.get (headerSum type size keySize reference) = reference := by
  obtain ⟨_, fits, _, _⟩ := fits
  have flag := flag_lt keySize
  have quotient : headerSum type size keySize reference / 2 ^ 32 = reference := by
    unfold headerSum
    omega
  rw [Field.get_eq _ starts (by omega) wide, quotient, Nat.mod_eq_of_lt narrow]

end

/-! ## What an argument looks like -/

namespace Value

def type : Value → Nat
  | int64 _ => 3
  | uint64 _ => 4
  | double _ => 5
  | string _ => 6
  | bool _ => 9

def bytes : Value → List UInt8
  | int64 v => littleEndian 8 v.toUInt64.toNat
  | uint64 v => littleEndian 8 v.toNat
  | double bits => littleEndian 8 bits.toNat
  | string bytes => pad bytes
  | bool _ => []

/-- The words of the value that its header counts. -/
def counted : Value → Nat
  | int64 _ => 0
  | uint64 _ => 1
  | double _ => 1
  | string bytes => align bytes.length / 8
  | bool _ => 0

def reference : Value → Nat
  | string bytes => if 0 < bytes.length then 2 ^ 15 + bytes.length else 0
  | bool v => v.toNat
  | _ => 0

end Value

namespace Argument

def size (arg : Argument) : Nat :=
  align arg.key.length / 8 + 1 + arg.value.counted

def header (arg : Argument) : Nat :=
  headerSum arg.value.type arg.size arg.key.length arg.value.reference

/-- The bytes that the encoder writes for an argument. -/
def image (arg : Argument) : List UInt8 :=
  littleEndian 8 arg.header ++ (pad arg.key ++ arg.value.bytes)

end Argument

/-! ## What the encoder leaves -/

/-- Bytes have been written behind those that were there. -/
structure Extended (before after : LogBuffer) (bytes : List UInt8) : Prop where
  success : before.encodeSuccess = true
  cursor : 8 * after.cursor = 8 * before.cursor + bytes.length
  bound : after.cursor < bufferSize
  held : load after.data 0 (8 * after.cursor) = load before.data 0 (8 * before.cursor) ++ bytes
  header : after.header = before.header
  rawSeverity : after.rawSeverity = before.rawSeverity
  ended : after.ended = before.ended

section

variable {before middle after st : LogBuffer} {first second : List UInt8}

lemma Extended.trans (one : Extended before middle first) (two : Extended middle after second) :
    Extended before after (first ++ second) where
  success := one.success
  cursor := by
    rw [two.cursor, one.cursor, length_append]
    omega
  bound := two.bound
  held := by rw [two.held, one.held, append_assoc]
  header := two.header.trans one.header
  rawSeverity := two.rawSeverity.trans one.rawSeverity
  ended := two.ended.trans one.ended

lemma Extended.withArgSize (extended : Extended before after first) (size : Nat) :
    Extended before { after with argSize := size } first :=
  { extended with }

lemma Extended.refl (success : st.encodeSuccess = true) (bound : st.cursor < bufferSize) :
    Extended st st [] :=
  ⟨success, rfl, bound, (append_nil _).symm, rfl, rfl, rfl⟩

lemma inBounds_iff : inBounds st off = true ↔ off + st.cursor < bufferSize := by
  unfold inBounds
  rw [Bool.not_eq_true', decide_eq_false_iff_not]
  exact Nat.not_le

private lemma load_setWord : load (setWord data i v) 0 (8 * (i + 1)) =
      load data 0 (8 * i) ++ littleEndian 8 v := by
  unfold setWord
  rw [Nat.mul_succ, load_add, Nat.zero_add, load_store_of_length (length_littleEndian 8 v)]
  congr 1
  exact load_congr (store_agreeOn (by omega))

lemma write_extended {v : Nat} (success : (write st v).encodeSuccess = true) :
    Extended st (write st v) (littleEndian 8 v) := by
  unfold write at success ⊢
  split at success
  next inside =>
    have bound := inBounds_iff.mp inside
    rw [if_pos inside]
    refine ⟨success, ?_, ?_, load_setWord .., rfl, rfl, rfl⟩
    · rw [length_littleEndian, Nat.mul_succ]
    · dsimp only
      omega
  · cases success

private lemma words_eq (length : Nat) : 8 * (length / 8 + if 0 < length % 8 then 1 else 0) = align length := by
  unfold align
  split <;> omega

lemma setWord_getWord : setWord data i (getWord data i) = data := by
  have read := littleEndian_ofLittleEndian (load data (8 * i) 8)
  rw [length_load] at read
  funext addr
  unfold setWord getWord word
  rw [read]
  by_cases inside : 8 * i ≤ addr ∧ addr < 8 * i + 8
  · have stored := @store_inside data (8 * i) (load data (8 * i) 8) (addr - 8 * i)
      (by rw [length_load]; omega)
    rw [getElem?_load, if_pos (by omega), Nat.add_sub_cancel' inside.1] at stored
    exact some.inj stored
  · exact store_outside (by rw [length_load]; omega)

lemma load_pad (agree : AgreeOn 0 pos blank data)
    (zero : ∀ addr, pos + msg.length ≤ addr → addr < pos + align msg.length → blank addr = 0) :
    load (store blank pos msg) 0 (pos + align msg.length) = load data 0 pos ++ pad msg := by
  have rest := Nat.add_sub_cancel' (le_align msg.length)
  have below : load (store blank pos msg) 0 pos = load data 0 pos := by
    apply load_congr
    rw [Nat.zero_add]
    exact AgreeOn.trans (store_agreeOn (by omega)) agree
  have above : load (store blank pos msg) (pos + msg.length)
      (align msg.length - msg.length) = replicate (align msg.length - msg.length) 0 := by
    apply load_replicate
    intro addr lower _
    rw [store_outside (by omega)]
    exact zero addr lower (by omega)
  rw [← rest, load_add, load_add, Nat.zero_add, below, load_store, above]
  rfl

/-- The bytes are followed by zeroes up to the next word. -/
private lemma writePaddedInternal_eq (data : Memory) (pos : Nat) (msg : List UInt8) :
    8 * (writePaddedInternal data pos msg).2 = align msg.length ∧
      load (writePaddedInternal data pos msg).1 0 (8 * pos + align msg.length) =
        load data 0 (8 * pos) ++ pad msg := by
  unfold writePaddedInternal
  split
  next empty =>
    rw [eq_nil_of_length_eq_zero empty]
    exact ⟨rfl, (append_nil _).symm⟩
  dsimp only
  by_cases partly : 0 < msg.length % 8
  · have words : 8 * ((msg.length + (8 - msg.length % 8) * 1) / 8) = align msg.length := by
      unfold align
      omega
    rw [if_pos partly]
    refine ⟨words, load_pad (store_agreeOn (by omega)) fun addr lower upper => ?_⟩
    rw [Nat.sub_self, Nat.mul_zero]
    exact @store_replicate data _ addr 8 0 (by omega) (by omega)
  · have words : 8 * ((msg.length + (8 - msg.length % 8) * 0) / 8) = align msg.length := by
      unfold align
      omega
    have whole : align msg.length = msg.length := align_of_dvd (by omega)
    rw [if_neg partly, Nat.sub_zero, Nat.mul_one, setWord_getWord]
    refine ⟨words, load_pad (fun _ _ _ => rfl) fun addr lower upper => ?_⟩
    omega

lemma writePadded_extended {msg : List UInt8} (success : (writePadded st msg).1.encodeSuccess = true) :
    Extended st (writePadded st msg).1 (pad msg) ∧
      (writePadded st msg).2 = align msg.length / 8 := by
  have words := words_eq msg.length
  unfold writePadded at success ⊢
  generalize (msg.length / 8 + if 0 < msg.length % 8 then 1 else 0) = count at success words ⊢
  dsimp only at success ⊢
  by_cases inside : inBounds st count = true
  · have bound := inBounds_iff.mp inside
    obtain ⟨written, held⟩ := writePaddedInternal_eq st.data st.cursor msg
    rw [if_pos inside] at success ⊢
    refine ⟨⟨success, ?_, ?_, ?_, rfl, rfl, rfl⟩, by omega⟩
    · rw [length_pad]
      dsimp only
      omega
    · dsimp only
      omega
    · rw [Nat.mul_add, written, held]
  · rw [if_neg inside] at success
    cases success

/-- The state once a key has been written. -/
structure KeyWritten (before after : LogBuffer) (key : List UInt8) : Prop where
  extended : Extended before after (littleEndian 8 0 ++ pad key)
  argSize : after.argSize = align key.length / 8 + 1
  currentKeySize : after.currentKeySize = key.length
  currentHeaderPosition : after.currentHeaderPosition = before.cursor

lemma appendArgumentKey_written (success : (appendArgumentKey st key).encodeSuccess = true) :
    KeyWritten st (appendArgumentKey st key) key := by
  obtain ⟨keyed, size⟩ := @writePadded_extended (write (flushPreviousArgument st) 0) key success
  have extended := (write_extended keyed.success).trans keyed
  exact ⟨{ extended with }, congrArg (· + 1) size, rfl, rfl⟩

/-- The header is filled in behind what was there before the argument. -/
lemma setArgHeader_extended (extended : Extended before st (littleEndian 8 0 ++ body))
    (pos : st.currentHeaderPosition = before.cursor) :
    Extended before (setArgHeader st v) (littleEndian 8 v ++ body) where
  success := extended.success
  cursor := by
    have cursor := extended.cursor
    rwa [length_append, length_littleEndian] at cursor ⊢
  bound := extended.bound
  held := by
    have held := extended.held
    rw [← append_assoc] at held
    have patched := @load_patch st.data 0 _ _ _ _ (littleEndian 8 v) held
      (by rw [length_littleEndian, length_littleEndian])
    rw [length_load, Nat.zero_add, append_assoc] at patched
    unfold setArgHeader setWord
    rw [pos]
    exact patched
  header := extended.header
  rawSeverity := extended.rawSeverity
  ended := extended.ended

/-- A write of the value leaves what is known of the key. -/
structure SameKey (before after : LogBuffer) : Prop where
  argSize : after.argSize = before.argSize
  currentKeySize : after.currentKeySize = before.currentKeySize
  currentHeaderPosition : after.currentHeaderPosition = before.currentHeaderPosition

lemma write_sameKey (st : LogBuffer) (v : Nat) : SameKey st (write st v) := by
  unfold write
  split <;> exact ⟨rfl, rfl, rfl⟩

private lemma writePadded_sameKey (st : LogBuffer) (msg : List UInt8) :
    SameKey st (writePadded st msg).1 := by
  unfold writePadded
  generalize (msg.length / 8 + if 0 < msg.length % 8 then 1 else 0) = count
  dsimp only
  split <;> exact ⟨rfl, rfl, rfl⟩

def Argument.Fits (arg : Argument) : Prop :=
  LogRecord.Fits arg.value.type arg.size arg.key.length arg.value.reference

lemma Value.type_lt (v : Value) : v.type < 2 ^ 4 := by
  cases v <;> exact of_decide_eq_true rfl

/-- The words the header counts are there. -/
lemma Value.counted_le (v : Value) : 8 * v.counted ≤ v.bytes.length := by
  cases v with
  | int64 | bool => exact Nat.zero_le _
  | uint64 | double => exact Nat.le_of_eq (length_littleEndian ..).symm
  | string bytes =>
    unfold counted Value.bytes
    rw [length_pad]
    exact Nat.mul_div_le ..

lemma Value.reference_lt {v : Value} (bound : v.bytes.length < 8 * bufferSize) :
    v.reference < 2 ^ 16 := by
  cases v with
  | int64 | uint64 | double => exact Nat.two_pow_pos 16
  | string bytes =>
    have fits := le_align bytes.length
    unfold Value.bytes at bound
    rw [length_pad, show 8 * bufferSize = 2 ^ 15 from rfl] at bound
    change (if 0 < bytes.length then 2 ^ 15 + bytes.length else 0) < 2 ^ 16
    split <;> omega
  | bool v => cases v <;> decide

/-- The fields of a header are wide enough for every argument that the buffer holds. -/
private lemma fits_of_extended {arg : Argument}
    (length : body.length = 8 + align arg.key.length + arg.value.bytes.length)
    (extended : Extended before after body) : arg.Fits := by
  have cursor := extended.cursor
  have bound := extended.bound
  have counted := arg.value.counted_le
  have aligned := le_align arg.key.length
  rw [length] at cursor
  rw [show bufferSize = 2 ^ 12 from rfl] at bound
  have reference := @Value.reference_lt arg.value (by
    rw [show 8 * bufferSize = 2 ^ 15 from rfl]
    omega)
  refine ⟨arg.value.type_lt, ?_, ?_, reference⟩
  · unfold Argument.size
    omega
  · omega

lemma argument_written {arg : Argument} {keyed : LogBuffer} {header : Nat}
    (written : KeyWritten before keyed arg.key) (extended : Extended keyed st arg.value.bytes)
    (pos : st.currentHeaderPosition = keyed.currentHeaderPosition)
    (computed : arg.Fits → header = arg.header) :
    Extended before (setArgHeader st header) arg.image ∧ arg.Fits := by
  have whole := written.extended.trans extended
  rw [append_assoc] at whole
  have fits : arg.Fits := by
    refine fits_of_extended ?_ whole
    rw [length_append, length_append, length_littleEndian, length_pad, Nat.add_assoc]
  rw [computed fits]
  exact ⟨setArgHeader_extended whole (pos.trans written.currentHeaderPosition), fits⟩

/-- The header without what a value refers to. -/
lemma computeArgHeader_argument {arg : Argument} (fits : arg.Fits)
    (size : st.argSize = arg.size) (keySize : st.currentKeySize = arg.key.length) :
    computeArgHeader st arg.value.type = headerSum arg.value.type arg.size arg.key.length 0 := by
  rw [computeArgHeader_eq fits.small (size ▸ fits.fits) (keySize ▸ fits.short), size, keySize]

lemma computeArgHeader_reference {arg : Argument} {field : Field} (fits : arg.Fits)
    (starts : field.first = 32) (size : st.argSize = arg.size)
    (keySize : st.currentKeySize = arg.key.length) :
    computeArgHeader st arg.value.type ||| field.make arg.value.reference = arg.header := by
  rw [computeArgHeader_argument fits size keySize,
    headerSum_or starts fits.small fits.fits fits.short fits.bound]
  rfl

private lemma string_reference (short : bytes.length < 2 ^ 15) :
    (if 0 < bytes.length then (1 <<< 15) ||| bytes.length else 0) = (Value.string bytes).reference := by
  have disjoint := Nat.two_pow_add_eq_or_of_lt short 1
  rw [Nat.mul_one] at disjoint
  rw [Nat.one_shiftLeft, ← disjoint]
  rfl

/-- A value of one word whose header counts it. -/
lemma append_word {arg : Argument} {v : Nat}
    (bytes : arg.value.bytes = littleEndian 8 v) (counted : arg.value.counted = 1)
    (reference : arg.value.reference = 0)
    (success : (write (appendArgumentKey st arg.key) v).encodeSuccess = true) :
    Extended st (let st := write (appendArgumentKey st arg.key) v
        let st := { st with argSize := postIncrement st.argSize }
        setArgHeader st (computeArgHeader st arg.value.type)) arg.image ∧
      arg.Fits := by
  have extended := write_extended success
  have written := appendArgumentKey_written extended.success
  have same := write_sameKey (appendArgumentKey st arg.key) v
  have size : (write (appendArgumentKey st arg.key) v).argSize + 1 = arg.size := by
    unfold Argument.size
    rw [same.argSize, written.argSize, counted]
  rw [← bytes] at extended
  refine argument_written written (extended.withArgSize _) same.currentHeaderPosition fun fits => ?_
  unfold Argument.header
  rw [reference]
  exact computeArgHeader_argument fits size (same.currentKeySize.trans written.currentKeySize)

lemma append_extended (success : (append st arg).encodeSuccess = true) :
    Extended st (append st arg) arg.image ∧ arg.Fits := by
  obtain ⟨key, v⟩ := arg
  unfold append appendArgumentValue at success ⊢
  cases v with
  | int64 v =>
    have extended := @write_extended (appendArgumentKey st key) v.toUInt64.toNat success
    have written := appendArgumentKey_written extended.success
    have same := write_sameKey (appendArgumentKey st key) v.toUInt64.toNat
    refine @argument_written _ _ ⟨key, .int64 v⟩ _ _ written extended
      same.currentHeaderPosition fun fits => ?_
    exact computeArgHeader_argument fits (same.argSize.trans written.argSize)
      (same.currentKeySize.trans written.currentKeySize)
  | uint64 v =>
    dsimp only [setArgHeader] at success
    exact @append_word st ⟨key, .uint64 v⟩ _ rfl rfl rfl success
  | double bits =>
    dsimp only [setArgHeader] at success
    exact @append_word st ⟨key, .double bits⟩ _ rfl rfl rfl success
  | string bytes =>
    dsimp only [setArgHeader] at success
    obtain ⟨extended, size⟩ := @writePadded_extended (appendArgumentKey st key) bytes success
    have written := appendArgumentKey_written extended.success
    have same := writePadded_sameKey (appendArgumentKey st key) bytes
    have counted : (writePadded (appendArgumentKey st key) bytes).1.argSize +
        (writePadded (appendArgumentKey st key) bytes).2 =
        (⟨key, .string bytes⟩ : Argument).size := by
      rw [same.argSize, written.argSize, size]
      rfl
    have short : bytes.length < 2 ^ 15 := by
      have aligned := le_align bytes.length
      have cursor := extended.cursor
      have bound := extended.bound
      rw [length_pad] at cursor
      rw [show bufferSize = 2 ^ 12 from rfl] at bound
      omega
    refine @argument_written _ _ ⟨key, .string bytes⟩ _ _ written (extended.withArgSize _)
      same.currentHeaderPosition fun fits => ?_
    rw [string_reference short]
    apply @computeArgHeader_reference _ ⟨key, .string bytes⟩ stringArgumentValueRef fits rfl
    · exact counted
    · exact same.currentKeySize.trans written.currentKeySize
  | bool v =>
    have written := appendArgumentKey_written success
    refine @argument_written _ _ ⟨key, .bool v⟩ _ _ written
      (.refl success written.extended.bound) rfl fun fits => ?_
    apply @computeArgHeader_reference _ ⟨key, .bool v⟩ boolArgumentValue fits rfl
    · exact written.argSize
    · exact written.currentKeySize

end

/-! ## What a record looks like -/

section

variable {st : LogBuffer} {arguments : List Argument}

lemma foldl_success (success : (arguments.foldl append st).encodeSuccess = true) :
    st.encodeSuccess = true := by
  induction arguments generalizing st with
  | nil => exact success
  | cons _ _ ih => exact (append_extended (ih success)).1.success

private lemma foldl_extended (success : (arguments.foldl append st).encodeSuccess = true)
    (bound : st.cursor < bufferSize) :
    Extended st (arguments.foldl append st) (arguments.flatMap Argument.image) ∧
      ∀ arg ∈ arguments, arg.Fits := by
  induction arguments generalizing st with
  | nil => exact ⟨.refl success bound, nofun⟩
  | cons arg _ ih =>
    obtain ⟨extended, fits⟩ := append_extended (foldl_success success)
    obtain ⟨later, fits'⟩ := ih success extended.bound
    exact ⟨extended.trans later, forall_mem_cons.mpr ⟨fits, fits'⟩⟩

end

def correctedSeverity (severity : Int8) : Int8 :=
  if Unlisted severity then logDebug else severity

/-- What `BeginRecord` writes before the pairs. -/
def startArguments (start : RecordStart) : List Argument :=
  [⟨kPidFieldName, .uint64 start.pid⟩, ⟨kTidFieldName, .uint64 start.tid⟩] ++
  (if Unlisted start.severity then
    [⟨kVerbosityFieldName, .int64 start.severity.toInt64⟩] else []) ++
  (if start.droppedCount ≠ 0 then
    [⟨kDroppedLogsFieldName, .uint64 start.droppedCount.toUInt64⟩] else []) ++
  (start.message.map fun message => ⟨kMessageFieldName, .string message⟩).toList ++
  (start.fileName.map fun fileName => ⟨kFileFieldName, .string (stripDots fileName)⟩).toList ++
  [⟨kLineFieldName, .uint64 start.line.toUInt64⟩]

/-- The state before anything has been written. -/
def emptyState (data : Memory) (severity : Int8) : LogBuffer :=
  { data, header := 0, rawSeverity := severity, argSize := 0, currentKeySize := 0,
    currentHeaderPosition := 0, cursor := 0, encodeSuccess := true, ended := false }

private lemma appendOptional_eq : appendOptional st arg = arg.toList.foldl append st := by
  cases arg with
  | none | some => rfl

lemma beginRecord_eq : beginRecord data start = (startArguments start).foldl append
      (encoderBegin (emptyState data (correctedSeverity start.severity)) start.time
        (correctedSeverity start.severity)) := by
  unfold beginRecord startArguments correctedSeverity emptyState
  simp only [foldl_append, appendOptional_eq]
  by_cases unlisted : Unlisted start.severity
  · simp only [if_pos unlisted]
    split <;> rfl
  · simp only [if_neg unlisted]
    split <;> rfl

lemma record_eq : record data start pairs = (startArguments start ++ pairs).foldl append
      (encoderBegin (emptyState data (correctedSeverity start.severity)) start.time
        (correctedSeverity start.severity)) := by
  rw [foldl_append, ← beginRecord_eq]
  rfl

lemma encoderBegin_extended (success : (encoderBegin st time severity).encodeSuccess = true) :
    Extended { st with rawSeverity := severity, header := st.cursor }
      (encoderBegin st time severity) (littleEndian 8 0 ++ littleEndian 8 time.toNat) := by
  have timed := write_extended success
  exact (write_extended timed.success).trans timed

/-- The header of a record. -/
def recordHeader (size severity : Nat) : Nat := 9 + 2 ^ 4 * size + 2 ^ 56 * severity

/-- The bytes of a record. -/
def recordImage (start : RecordStart) (arguments : List Argument) : List UInt8 :=
  let body := littleEndian 8 start.time.toNat ++ arguments.flatMap Argument.image
  littleEndian 8 (recordHeader (body.length / 8 + 1)
    (severityWord (correctedSeverity start.severity))) ++ body

lemma severityWord_lt (severity : Int8) : severityWord (correctedSeverity severity) < 2 ^ 8 := by
  unfold correctedSeverity
  split
  · decide
  rename_i listed
  unfold Unlisted at listed
  have values : severity.toInt = 0x10 ∨ severity.toInt = 0x20 ∨ severity.toInt = 0x30 ∨
      severity.toInt = 0x40 ∨ severity.toInt = 0x50 ∨ severity.toInt = 0x60 := by omega
  rw [← Int8.ofInt_toInt severity]
  rcases values with v | v | v | v | v | v <;> rw [v] <;> decide

lemma recordHeader_eq (fits : size < 2 ^ 12) (small : severity < 2 ^ 8) :
    HeaderFields.type.make 9 ||| HeaderFields.sizeWords.make size |||
      HeaderFields.reserved.make 0 ||| HeaderFields.severity.make severity = recordHeader size severity := by
  unfold recordHeader
  rw [show HeaderFields.type.make 9 = 9 from rfl,
    @or_make HeaderFields.sizeWords 4 _ _ rfl (by omega) (by omega),
    @or_make HeaderFields.reserved 16 _ _ rfl (by omega) (by simp),
    @or_make HeaderFields.severity 56 _ _ rfl (by omega) (by omega)]
  omega

lemma endRecord_success : (endRecord st).encodeSuccess = st.encodeSuccess := by
  unfold endRecord
  split <;> rfl

/-- The buffer before a record is ended. -/
lemma record_extended (success : (record data start pairs).encodeSuccess = true) :
    Extended (emptyState data (correctedSeverity start.severity)) (record data start pairs)
        (littleEndian 8 0 ++ (littleEndian 8 start.time.toNat ++
          (startArguments start ++ pairs).flatMap Argument.image)) ∧
      ∀ arg ∈ startArguments start ++ pairs, arg.Fits := by
  rw [record_eq] at success ⊢
  have begun := encoderBegin_extended (foldl_success success)
  obtain ⟨extended, fits⟩ := foldl_extended success begun.bound
  have whole := begun.trans extended
  rw [append_assoc] at whole
  exact ⟨whole, fits⟩

/-- The header is filled in at the front. -/
lemma load_endRecord (held : load st.data 0 (8 * st.cursor) = littleEndian 8 0 ++ body)
    (atStart : st.header = 0) (going : st.ended = false) (fits : st.cursor < bufferSize)
    (same : severityWord st.rawSeverity = severity) (small : severity < 2 ^ 8) :
    load (endRecord st).data 0 (8 * (endRecord st).cursor) =
      littleEndian 8 (recordHeader st.cursor severity) ++ body := by
  have ended : endRecord st = encoderEnd { st with ended := true } := by
    unfold endRecord
    rw [going]
    rfl
  have header := recordHeader_eq (show st.cursor < 2 ^ 12 from fits) small
  have patched := @load_patch st.data 0 _ [] (littleEndian 8 0) body
    (littleEndian 8 (recordHeader st.cursor severity)) held
    (by rw [length_littleEndian, length_littleEndian])
  rw [ended]
  unfold encoderEnd flushPreviousArgument setWord
  dsimp only
  rw [atStart, same, Nat.sub_zero, header]
  exact patched

lemma flushRecord_some (flushed : (flushRecord st status).2.2 = some written) :
    st.encodeSuccess = true ∧ written = load (endRecord st).data 0 (8 * (endRecord st).cursor) := by
  unfold flushRecord at flushed
  dsimp only at flushed
  rw [endRecord_success] at flushed
  cases success : st.encodeSuccess with
  | false =>
    rw [success] at flushed
    cases flushed
  | true =>
    rw [success] at flushed
    exact ⟨rfl, (some.inj flushed).symm⟩

/-- What is written to the socket. -/
lemma flushRecord_written (flushed : (flushRecord (record data start pairs) status).2.2 = some written) :
    written = recordImage start (startArguments start ++ pairs) ∧ written.length < 8 * bufferSize ∧
      ∀ arg ∈ startArguments start ++ pairs, arg.Fits := by
  obtain ⟨success, whole⟩ := flushRecord_some flushed
  obtain ⟨extended, fits⟩ := record_extended success
  generalize record data start pairs = st at extended whole
  have cursor : 8 * st.cursor = 8 * 0 + _ := extended.cursor
  have bound := extended.bound
  have held := extended.held.trans (nil_append _)
  have header := load_endRecord held extended.header extended.ended bound
    (congrArg severityWord extended.rawSeverity) (severityWord_lt start.severity)
  rw [length_append, length_littleEndian] at cursor
  have size : st.cursor = (littleEndian 8 start.time.toNat ++
      (startArguments start ++ pairs).flatMap Argument.image).length / 8 + 1 := by
    omega
  have length := congrArg length header
  rw [← whole, length_append, length_littleEndian] at length
  refine ⟨?_, ?_, fits⟩
  · rw [whole, header, size]
    rfl
  · rw [length]
    omega

/-! ## Parsing -/

section

variable {arg : Argument} {arguments : List Argument} {bytes rest : List UInt8}

lemma takeWord_append {v : Nat} (small : v < 256 ^ 8) :
    takeWord (littleEndian 8 v ++ rest) = some (v, rest) := by
  have length := length_littleEndian 8 v
  unfold takeWord
  rw [if_pos (by rw [length_append, length]; omega), take_left' length,
    drop_left' length, ofLittleEndian_littleEndian small]

lemma takeString_pad (bytes rest : List UInt8) :
    takeString (if 0 < bytes.length then 1 else 0) bytes.length (pad bytes ++ rest) =
      some (bytes, rest) := by
  have length := @length_pad bytes
  unfold takeString
  by_cases some : 0 < bytes.length
  · rw [if_pos some, if_pos rfl, if_pos (by rw [length_append, length]; omega), drop_left' length]
    unfold pad
    rw [append_assoc, take_left' rfl]
  · have empty : bytes = [] := eq_nil_of_length_eq_zero (by omega)
    subst empty
    rfl

lemma parseWord_eq : parseWord (littleEndian 8 v.toNat) = some v := by
  have taken := @takeWord_append [] v.toNat v.toNat_lt
  rw [append_nil] at taken
  unfold parseWord
  rw [taken]
  exact congrArg some (UInt64.ofNat_toNat ..)

def Value.IsInt64 : Value → Prop
  | int64 _ => True
  | _ => False

instance (v : Value) : Decidable v.IsInt64 := by
  unfold Value.IsInt64
  split <;> infer_instance

/-- A string that is referred to is shorter than a reference can say. -/
private lemma string_reference_split (bound : (Value.string bytes).reference < 2 ^ 16) :
    (Value.string bytes).reference / 2 ^ 15 = (if 0 < bytes.length then 1 else 0) ∧
      (Value.string bytes).reference % 2 ^ 15 = bytes.length := by
  change (if 0 < bytes.length then 2 ^ 15 + bytes.length else 0) < 2 ^ 16 at bound
  change (if 0 < bytes.length then 2 ^ 15 + bytes.length else 0) / 2 ^ 15 = _ ∧
    (if 0 < bytes.length then 2 ^ 15 + bytes.length else 0) % 2 ^ 15 = _
  split
  next some =>
    rw [if_pos some] at bound
    omega
  · omega

lemma parseValue_string (type : ArgumentFields.type.get header = 6)
    (reference : stringArgumentValueRef.get header = (Value.string bytes).reference)
    (bound : (Value.string bytes).reference < 2 ^ 16) :
    parseValue header (pad bytes) = some (.string bytes) := by
  obtain ⟨inline, length⟩ := string_reference_split bound
  have taken := takeString_pad bytes []
  rw [append_nil] at taken
  unfold parseValue
  rw [type]
  dsimp only
  rw [reference, inline, length, taken]
  rfl

lemma parseValue_bool (type : ArgumentFields.type.get header = 9)
    (reference : boolArgumentValue.get header = v.toNat) : parseValue header [] = some (.bool v) := by
  unfold parseValue
  rw [type]
  rw [reference]
  cases v with
  | false | true => rfl

/-- A value is read back. -/
lemma parseValue_eq (fits : arg.Fits) (unsigned : ¬ arg.value.IsInt64) :
    parseValue arg.header arg.value.bytes = some arg.value := by
  have type : ArgumentFields.type.get arg.header = _ := (headerSum_fields fits).1
  obtain ⟨_, v⟩ := arg
  cases v with
  | int64 v => exact absurd trivial unsigned
  | uint64 v =>
    unfold parseValue
    rw [type]
    exact congrArg (Option.map Value.uint64) (parseWord_eq)
  | double =>
    unfold parseValue
    rw [type]
    exact congrArg (Option.map Value.double) (parseWord_eq)
  | string bytes =>
    have reference := @get_reference _ _ _ _ stringArgumentValueRef 16 fits rfl rfl fits.bound
    exact parseValue_string type reference fits.bound
  | bool v =>
    have reference := @get_reference _ _ _ _ boolArgumentValue 1 fits rfl rfl v.toNat_lt
    exact parseValue_bool type reference

/-- No word is left for a signed value. -/
lemma parseValue_int64 (fits : arg.Fits) (signed : arg.value.IsInt64) : parseValue arg.header [] = none := by
  have type : ArgumentFields.type.get arg.header = _ := (headerSum_fields fits).1
  obtain ⟨_, v⟩ := arg
  cases v with
  | int64 v =>
    unfold parseValue
    rw [type]
    rfl
  | uint64 | double | string | bool => cases signed

/-- The words that a header counts are all there are, except for a signed value. -/
lemma Value.counted_eq {v : Value} (unsigned : ¬ v.IsInt64) :
    8 * v.counted = v.bytes.length := by
  cases v with
  | int64 v => exact absurd trivial unsigned
  | uint64 | double => exact (length_littleEndian ..).symm
  | string bytes =>
    change 8 * (align bytes.length / 8) = (pad bytes).length
    rw [length_pad, Nat.mul_div_cancel' (dvd_align _)]
  | bool v => rfl

/-- What the parser looks at: the words that the header counts. -/
private lemma take_image (inside : counted ≤ arg.value.bytes.length) :
    ((arg.image ++ rest).take (8 + align arg.key.length + counted)).drop 8 =
      pad arg.key ++ arg.value.bytes.take counted := by
  have header := length_littleEndian 8 arg.header
  have key := @length_pad arg.key
  unfold Argument.image
  rw [Nat.add_assoc, append_assoc, append_assoc, take_append, header,
    take_of_length_le (by omega), Nat.add_sub_cancel_left, drop_left' header,
    take_append, key, take_of_length_le (by omega), Nat.add_sub_cancel_left,
    take_append_of_le_length inside]

lemma length_image (arg : Argument) :
    arg.image.length = 8 + align arg.key.length + arg.value.bytes.length := by
  unfold Argument.image
  rw [length_append, length_append, length_littleEndian, length_pad, Nat.add_assoc]

/-- How far the parser gets with an argument. -/
lemma parseArgument_image (fits : arg.Fits) : parseArgument (arg.image ++ rest) =
      (parseValue arg.header (arg.value.bytes.take (8 * arg.value.counted))).map
        fun v => (⟨arg.key, v⟩, (arg.image ++ rest).drop (8 * arg.size)) := by
  have taken : takeWord (arg.image ++ rest) =
      some (arg.header, pad arg.key ++ arg.value.bytes ++ rest) := by
    unfold Argument.image
    rw [append_assoc]
    exact takeWord_append (headerSum_lt fits)
  obtain ⟨_, size, name, inline⟩ := headerSum_fields fits
  change sizeWords.get arg.header = _ at size
  change nameRefVal.get arg.header = _ at name
  change nameRefMSB.get arg.header = _ at inline
  have counted := arg.value.counted_le
  have words : 8 * arg.size = 8 + align arg.key.length + 8 * arg.value.counted := by
    have aligned := Nat.mul_div_cancel' (dvd_align arg.key.length)
    unfold Argument.size
    omega
  have length := length_image arg
  have fitting : 8 ≤ 8 * arg.size ∧ 8 * arg.size ≤ (arg.image ++ rest).length := by
    rw [length_append]
    omega
  unfold parseArgument
  rw [taken, bind_eq_bind, bind_some]
  dsimp only
  rw [size, if_pos fitting, name, inline, words, take_image counted, takeString_pad,
    bind_eq_bind, bind_some]
  cases parseValue arg.header
      (arg.value.bytes.take (8 * arg.value.counted)) with
  | none => rfl
  | some v => rfl

/-- The parser reads an argument back, or stops at it. -/
lemma parseArgument_eq (fits : arg.Fits) : parseArgument (arg.image ++ rest) =
      if arg.value.IsInt64 then none else some (arg, rest) := by
  rw [parseArgument_image fits]
  split
  next signed =>
    have counted : arg.value.counted = 0 := by
      obtain ⟨key, v⟩ := arg
      cases v with
      | int64 v => rfl
      | uint64 | double | string | bool => cases signed
    rw [counted, Nat.mul_zero, take_zero, parseValue_int64 fits signed]
    rfl
  next unsigned =>
    have counted := Value.counted_eq unsigned
    have whole : 8 * arg.size = arg.image.length := by
      have aligned := Nat.mul_div_cancel' (dvd_align arg.key.length)
      rw [length_image, ← counted]
      unfold Argument.size
      omega
    rw [counted, take_length, parseValue_eq fits unsigned, whole, drop_left' rfl]
    rfl

private lemma image_ne_nil : arg.image ++ rest ≠ [] := by
  intro empty
  have length := congrArg length empty
  rw [length_append, length_image, length_nil] at length
  omega

lemma parseArguments_succ (nonempty : bytes ≠ []) :
    parseArguments (fuel + 1) bytes = (parseArgument bytes).bind fun parsed =>
      (parseArguments fuel parsed.2).bind fun arguments => some (parsed.1 :: arguments) := by
  cases bytes with
  | nil => exact absurd rfl nonempty
  | cons => rfl

/-- All arguments are read back, or the parser stops at the first signed one. -/
lemma parseArguments_eq (fits : ∀ arg ∈ arguments, arg.Fits) (enough : arguments.length ≤ fuel) :
    parseArguments fuel (arguments.flatMap Argument.image) =
      if ∃ arg ∈ arguments, arg.value.IsInt64 then none else some arguments := by
  induction arguments generalizing fuel with
  | nil =>
    rw [if_neg nofun]
    cases fuel <;> rfl
  | cons arg rest ih =>
    obtain ⟨here, later⟩ := forall_mem_cons.mp fits
    cases fuel with
    | zero => cases enough
    | succ fuel =>
      have next := ih later (Nat.le_of_succ_le_succ enough)
      have parsed := @parseArgument_eq arg (rest.flatMap Argument.image) here
      rw [flatMap_cons, parseArguments_succ (image_ne_nil), parsed]
      rw [if_congr (exists_mem_cons_iff ..) rfl rfl]
      split <;> rename_i signed
      · rw [if_pos (.inl signed)]
        rfl
      · rw [bind_some, next, if_congr (or_iff_right signed) rfl rfl]
        split <;> rfl

end

section

variable {size severity : Nat}

lemma recordHeader_lt (fits : size < 2 ^ 12) (small : severity < 2 ^ 8) :
    recordHeader size severity < 256 ^ 8 := by
  unfold recordHeader
  omega

lemma get_recordType : HeaderFields.type.get (recordHeader size severity) = 9 := by
  rw [@Field.get_eq HeaderFields.type 0 4 _ rfl (by omega) rfl]
  unfold recordHeader
  omega

lemma get_recordSize (fits : size < 2 ^ 12) :
    HeaderFields.sizeWords.get (recordHeader size severity) = size := by
  rw [@Field.get_eq HeaderFields.sizeWords 4 12 _ rfl (by omega) rfl]
  unfold recordHeader
  omega

lemma get_recordSeverity (fits : size < 2 ^ 12) (small : severity < 2 ^ 8) :
    HeaderFields.severity.get (recordHeader size severity) = severity := by
  rw [@Field.get_eq HeaderFields.severity 56 8 _ rfl (by omega) rfl]
  unfold recordHeader
  omega

end

lemma Value.words (v : Value) : 8 ∣ v.bytes.length := by
  cases v with
  | int64 | uint64 | double => exact ⟨1, length_littleEndian ..⟩
  | string bytes =>
    change 8 ∣ (pad bytes).length
    rw [length_pad]
    exact dvd_align _
  | bool v => exact Nat.dvd_zero 8

/-- Arguments are whole words, each of them one at least. -/
private lemma image_words (arguments : List Argument) : 8 ∣ (arguments.flatMap Argument.image).length ∧
      8 * arguments.length ≤ (arguments.flatMap Argument.image).length := by
  induction arguments with
  | nil => exact ⟨Nat.dvd_zero 8, Nat.le_refl 0⟩
  | cons arg =>
    have words := arg.value.words
    have aligned := dvd_align arg.key.length
    rw [flatMap_cons, length_append, length_cons, length_image]
    omega

/-- What the parser makes of a record. -/
lemma parseRecord_image (short : (recordImage start arguments).length < 8 * bufferSize)
    (fits : ∀ arg ∈ arguments, arg.Fits) : parseRecord (recordImage start arguments) =
      if ∃ arg ∈ arguments, arg.value.IsInt64 then none
      else some ⟨severityWord (correctedSeverity start.severity), start.time.toNat, arguments⟩ := by
  have small := severityWord_lt start.severity
  obtain ⟨_, _⟩ := image_words arguments
  have timed := @takeWord_append (arguments.flatMap Argument.image) _ start.time.toNat_lt
  have length := @length_append _ (littleEndian 8 start.time.toNat)
    (arguments.flatMap Argument.image)
  rw [length_littleEndian] at length
  unfold recordImage at short ⊢
  generalize severityWord (correctedSeverity start.severity) = severity at small short ⊢
  generalize littleEndian 8 start.time.toNat ++ arguments.flatMap Argument.image = body
    at timed length short ⊢
  have size : body.length / 8 + 1 < 2 ^ 12 := by
    rw [length_append, length_littleEndian, show 8 * bufferSize = 8 * 2 ^ 12 from rfl] at short
    omega
  have whole : HeaderFields.type.get (recordHeader (body.length / 8 + 1) severity) = 9 ∧
      8 * HeaderFields.sizeWords.get (recordHeader (body.length / 8 + 1) severity) =
        (littleEndian 8 (recordHeader (body.length / 8 + 1) severity) ++ body).length := by
    refine ⟨get_recordType .., ?_⟩
    rw [get_recordSize size, length_append, length_littleEndian]
    omega
  unfold parseRecord
  rw [takeWord_append (recordHeader_lt size small), bind_eq_bind, bind_some]
  dsimp only
  rw [if_pos whole, timed, bind_eq_bind, bind_some, get_recordSeverity size small]
  dsimp only
  rw [parseArguments_eq fits (by omega)]
  split <;> rfl

lemma Value.isInt64_iff {v : Value} : v.IsInt64 ↔ ∃ signed, v = .int64 signed := by
  cases v with
  | int64 signed => exact iff_of_true trivial ⟨signed, rfl⟩
  | uint64 | double | string | bool => exact ⟨False.elim, fun ⟨_, same⟩ => nomatch same⟩

/-- Only an unlisted severity makes `BeginRecord` write a signed value. -/
private lemma startArguments_isInt64 :
    (∃ arg ∈ startArguments start, arg.value.IsInt64) ↔ Unlisted start.severity := by
  unfold startArguments
  refine ⟨fun ⟨arg, mem, signed⟩ => ?_, fun unlisted => ?_⟩
  · by_contra listed
    rw [if_neg listed] at mem
    simp only [mem_append, mem_cons, not_mem_nil, or_false, mem_toList, map_eq_some_iff] at mem
    rcases mem with ((((rfl | rfl) | mem) | ⟨_, _, rfl⟩) | ⟨_, _, rfl⟩) | rfl
    · cases signed
    · cases signed
    · split at mem
      · rw [mem_singleton.mp mem] at signed
        cases signed
      · cases mem
    · cases signed
    · cases signed
    · cases signed
  · refine ⟨⟨kVerbosityFieldName, .int64 start.severity.toInt64⟩, ?_, trivial⟩
    rw [if_pos unlisted]
    simp only [mem_append, mem_singleton, true_or, or_true]

/-- A record is read back from the words written to the socket exactly when it has no
signed value: the header of such an argument does not count the value. -/
theorem parseRecord_flushRecord_iff {data : Memory} {start : RecordStart} {pairs : List Argument}
    {status : Int} {written : List UInt8}
    (flushed : (flushRecord (record data start pairs) status).2.2 = some written) :
    parseRecord written = some ⟨severityWord (correctedSeverity start.severity),
        start.time.toNat, startArguments start ++ pairs⟩ ↔
      ¬ Unlisted start.severity ∧ ∀ pair ∈ pairs, ∀ v, pair.value ≠ .int64 v := by
  obtain ⟨rfl, short, fits⟩ := flushRecord_written flushed
  have signed : (∃ arg ∈ startArguments start ++ pairs, arg.value.IsInt64) ↔
      Unlisted start.severity ∨ ∃ pair ∈ pairs, ∃ v, pair.value = .int64 v := by
    simp only [← Value.isInt64_iff, ← startArguments_isInt64, mem_append, or_and_right, exists_or]
  rw [parseRecord_image short fits]
  split
  next found =>
    refine ⟨nofun, fun ⟨listed, unsigned⟩ => ?_⟩
    rcases signed.mp found with unlisted | ⟨pair, member, v, same⟩
    · exact absurd unlisted listed
    · exact absurd same (unsigned pair member v)
  next none =>
    have clear := mt signed.mpr none
    refine ⟨fun _ => ⟨fun unlisted => clear (.inl unlisted), fun pair member v same => ?_⟩,
      fun _ => rfl⟩
    exact clear (.inr ⟨pair, member, v, same⟩)

/-- A record at the INFO severity, without a file or a message. -/
def infoStart : RecordStart :=
  { severity := 0x30, fileName := none, line := 7, message := none, droppedCount := 0, pid := 1,
    tid := 2, time := 99 }

theorem parseRecord_flushRecord_iff_unsigned :
    ∃ written, (flushRecord (record (fun _ => 0) infoStart [⟨text ['a'], .uint64 5⟩]) 0).2.2 =
        some written ∧
      parseRecord written = some ⟨0x30, 99, startArguments infoStart ++
        [⟨text ['a'], .uint64 5⟩]⟩ := by
  have sent : (flushRecord (record (fun _ => 0) infoStart
      [⟨text ['a'], .uint64 5⟩]) 0).2.2.isSome = true := by
    decide +kernel
  obtain ⟨written, flushed⟩ := isSome_iff_exists.mp sent
  refine ⟨written, flushed, (parseRecord_flushRecord_iff flushed).mpr ⟨by decide, ?_⟩⟩
  intro _ member _ same
  rw [mem_singleton.mp member] at same
  cases same

/-- The same pair with a signed value: the record is sent, and it cannot be parsed. -/
theorem flushRecord_signed :
    (flushRecord (record (fun _ => 0) infoStart [⟨text ['a'], .int64 5⟩]) 0).2.2.map parseRecord =
      some none := by
  decide +kernel

end FuchsiaSdk.LogRecord
