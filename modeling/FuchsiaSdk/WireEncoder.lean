import FuchsiaSdk.WireFormat

/-! `WireEncoder` (`fidl/cpp/wire/wire_encoder.h`, `wire_encoder.cc`) and the
encoding half of the wire coding traits (`wire_coding_traits.h`). Positions are
offsets in the backing buffer. Errors are sticky and encoding goes on after
them, as in the source; an overrun of the buffer counts as one. -/
namespace FuchsiaSdk.WireEncoder
open Memory WireFormat

/-- A `zx_channel_iovec_t`: a range of the backing buffer, or the body of a
vector that the value owns. -/
inductive Iovec where
  | backing (start length : Nat)
  | external (bytes : List UInt8)
  deriving DecidableEq, Repr

/-- The capacity of an iovec is a `uint32_t`. -/
def Iovec.within (start length : Nat) : Iovec := .backing start (length % 2 ^ 32)

def Iovec.bytes (memory : Memory) : Iovec → List UInt8
  | .backing start length => load memory start length
  | .external bytes => bytes

/-- The concatenation of the bytes of the iovecs. -/
def gather (memory : Memory) (iovecs : List Iovec) : List UInt8 :=
  iovecs.flatMap (Iovec.bytes memory)

structure Encoder where
  iovecCapacity : Nat
  handleCapacity : Nat
  /-- The size of the backing buffer. -/
  capacity : Nat
  memory : Memory
  iovecs : List Iovec := []
  handles : List Handle := []
  /-- `backing_buffer_next_`. -/
  next : Nat := 0
  /-- `current_iovec_bytes_begin_`. -/
  begin : Nat := 0
  byteActual : Nat := 0
  error : Option CodingError := none
  /-- The handles that were released from the value, in order. -/
  released : List Handle := []
  /-- The handles that were closed, in order. -/
  closed : List Handle := []
  /-- An iovec was written behind the array, where `Finish` has a `ZX_DEBUG_ASSERT`. -/
  overrun : Bool := false

/-- `CodingConfig`: the outcome of `encode_process_handle` per handle index. -/
structure Config where
  processHandle : HandleAttributes → Nat → Option CodingError

namespace Encoder

def consumedBytesInCurrentIovec (enc : Encoder) : Nat := enc.next - enc.begin

def currentLength (enc : Encoder) : Nat :=
  enc.byteActual + enc.consumedBytesInCurrentIovec

def hasError (enc : Encoder) : Bool :=
  enc.error.isSome || decide (enc.capacity < enc.next)

lemma hasError_of_over {enc : Encoder} (beyond : enc.capacity < enc.next) : enc.hasError = true := by
  simp [hasError, beyond]

lemma hasError_eq_false {enc : Encoder} :
    enc.hasError = false ↔ enc.error = none ∧ enc.next ≤ enc.capacity := by
  simp [hasError]

def setError (enc : Encoder) (error : CodingError) : Encoder :=
  { enc with error := enc.error <|> some error }

def write (enc : Encoder) (pos : Nat) (bytes : List UInt8) : Encoder :=
  { enc with memory := store enc.memory pos bytes }

def advance (enc : Encoder) (size : Nat) : Encoder :=
  { enc with next := enc.next + align size }

/-- `Alloc`, which zeroes the last eight bytes of the region. -/
def alloc (enc : Encoder) (size : Nat) : Option Nat × Encoder :=
  if enc.next + align size ≤ enc.capacity then
    (some enc.next,
      (enc.advance size).write (enc.next + align size - 8) (List.replicate 8 0))
  else (none, enc.advance size)

lemma alloc_fits {enc : Encoder} (fits : enc.next + align size ≤ enc.capacity) :
    enc.alloc size = (some enc.next,
      (enc.advance size).write (enc.next + align size - 8) (List.replicate 8 0)) :=
  if_pos fits

lemma alloc_over {enc : Encoder} (beyond : ¬enc.next + align size ≤ enc.capacity) :
    enc.alloc size = (none, enc.advance size) :=
  if_neg beyond

/-- What is encoded after `Alloc`, if that succeeds. -/
def allocThen (enc : Encoder) (size : Nat) (body : Nat → Encoder → Encoder) : Encoder :=
  match enc.alloc size with
  | (none, enc) => enc
  | (some pos, enc) => body pos enc

/-- Finish the iovec that points within the backing buffer. -/
def finishIovec (enc : Encoder) : Encoder :=
  if enc.consumedBytesInCurrentIovec > 0 then
    { enc with
      iovecs := enc.iovecs ++ [.within enc.begin enc.consumedBytesInCurrentIovec]
      byteActual := enc.byteActual + enc.consumedBytesInCurrentIovec
      begin := enc.next }
  else enc

/-- An iovec that points to bytes of the value. -/
def pointTo (enc : Encoder) (bytes : List UInt8) : Encoder :=
  { enc with
    iovecs := enc.iovecs ++ [.external (bytes.take (bytes.length % 2 ^ 32))]
    byteActual := enc.byteActual + bytes.length }

/-- `Alloc` and copy. -/
def append (enc : Encoder) (bytes : List UInt8) : Encoder :=
  enc.allocThen bytes.length fun pos enc => enc.write pos bytes

/-- `EncodeMemcpyableVector`. -/
def encodeMemcpyableVector (enc : Encoder) (bytes : List UInt8) : Encoder :=
  if enc.iovecs.length + 2 ≥ enc.iovecCapacity then enc.append bytes
  else
    let alignedDown := bytes.length / 8 * 8
    let enc :=
      if alignedDown > 0 then enc.finishIovec.pointTo (bytes.take alignedDown) else enc
    if bytes.length - alignedDown > 0 then enc.append (bytes.drop alignedDown) else enc

/-- `release` of a handle of the value, which precedes `EncodeHandle`. -/
def release (enc : Encoder) (handle : Handle) : Encoder :=
  { enc with released := enc.released ++ [handle] }

/-- `coding_config_->close`. -/
def close (enc : Encoder) (handle : Handle) : Encoder :=
  { enc with closed := enc.closed ++ [handle] }

def storeHandle (enc : Encoder) (handle : Handle) : Encoder :=
  { enc with handles := enc.handles ++ [handle] }

/-- `EncodeHandle` of a handle that is released from the value. -/
def encodeHandle (enc : Encoder) (cfg : Config) (handle : Handle)
    (attrs : HandleAttributes) (pos : Nat) (optional : Bool) : Encoder :=
  if handle = 0 then
    if optional then enc.write pos (littleEndian 4 handleAbsent)
    else enc.setError .absentNonNullableHandle
  else if enc.hasError then (enc.release handle).close handle
  else if enc.handles.length ≥ enc.handleCapacity then
    (enc.release handle).setError .tooManyHandlesConsumed
  else
    let stored :=
      ((enc.release handle).write pos (littleEndian 4 handlePresent)).storeHandle handle
    match cfg.processHandle attrs enc.handles.length with
    | some error => stored.setError error
    | none => stored

/-- `RecursionDepth::Add`, and what is encoded below it. -/
def deeper (enc : Encoder) (coding : Coding) (depth diff : Nat)
    (body : Nat → Encoder → Encoder) : Encoder :=
  match coding.add depth diff with
  | none => enc.setError .recursionDepthExceeded
  | some depth => body depth enc

end Encoder

/-! ## Coding traits -/

def encodeEach {α : Type} (encode : α → Nat → Encoder → Encoder) (stride : Nat) :
    List α → Nat → Encoder → Encoder
  | [], _, enc => enc
  | v :: rest, pos, enc =>
    encodeEach encode stride rest (pos + stride) (encode v pos enc)

/-- `EncodeEachElement`. Its index is a `uint32_t`, so it does not end for 2 ^ 32 elements or more,
for which `Alloc` needs a buffer of as many bytes; here the elements are all encoded. -/
def encodeEachElement {α : Type} (encode : α → Nat → Encoder → Encoder) (stride : Nat)
    (values : List α) (enc : Encoder) : Encoder :=
  enc.allocThen (values.length * stride) (encodeEach encode stride values)

/-- `EncodePrework`: the header, and the elements if any are to be encoded. -/
def encodePrework {α : Type} (values : Option (List α)) (pos : Nat) (optional : Bool)
    (limit : Nat) (enc : Encoder) : List α × Encoder :=
  match values with
  | none =>
    ([], enc.write pos (vectorHeader 0 (if optional then allocAbsent else allocPresent)))
  | some values =>
    if values.length > limit then ([], enc.setError .vectorLimitExceeded)
    else (values, enc.write pos (vectorHeader values.length allocPresent))

/-- `VectorCodingTraitHelper::Encode`; `raw` is the object representation of an
element if that is memcpy-compatible. -/
def encodeVector {α : Type} (coding : Coding) (raw : Option (α → List UInt8))
    (encode : Nat → α → Nat → Encoder → Encoder) (stride limit : Nat) (optional : Bool)
    (values : Option (List α)) (pos depth : Nat) (enc : Encoder) : Encoder :=
  match encodePrework values pos optional limit enc with
  | ([], enc) => enc
  | (values, enc) =>
    enc.deeper coding depth 1 fun depth enc =>
      match raw with
      | some raw => enc.encodeMemcpyableVector (values.flatMap raw)
      | none => encodeEachElement (encode depth) stride values enc

section

variable {α : Type} {coding : Coding} {raw : Option (α → List UInt8)}
  {encode : Nat → α → Nat → Encoder → Encoder} {optional : Bool} {enc : Encoder}

lemma encodeVector_over (beyond : values.length > limit) :
    encodeVector coding raw encode stride limit optional (some values) pos depth enc =
      enc.setError .vectorLimitExceeded := by
  simp only [encodeVector, encodePrework, if_pos beyond]

lemma encodeVector_cons (within : ¬(v :: rest).length > limit) :
    encodeVector coding raw encode stride limit optional (some (v :: rest)) pos depth enc =
      (enc.write pos (vectorHeader (v :: rest).length allocPresent)).deeper coding
        depth 1 fun depth enc =>
          match raw with
          | some raw => enc.encodeMemcpyableVector ((v :: rest).flatMap raw)
          | none => encodeEachElement (encode depth) stride (v :: rest) enc := by
  simp only [encodeVector, encodePrework, if_neg within]

end

/-- `WireCodingTraits<fidl::StringView>::Encode`. -/
def encodeString (coding : Coding) (limit : Nat) (optional : Bool) (bytes : Option (List UInt8))
    (pos depth : Nat) (enc : Encoder) : Encoder :=
  let enc := encodeVector coding (some fun byte => [byte]) (fun _ _ _ enc => enc) 1
    limit optional bytes pos depth enc
  match bytes with
  | none => enc
  | some bytes =>
    if enc.hasError then enc
    else if coding.isValidUtf8 bytes then enc
    else enc.setError .stringNotValidUtf8

/-- `WireCodingTraits<fidl::ObjectView<T>>::Encode`. -/
def encodeBox {α : Type} (coding : Coding) (encode : Nat → α → Nat → Encoder → Encoder)
    (size : Nat) (v : Option α) (pos depth : Nat) (enc : Encoder) : Encoder :=
  match v with
  | none => enc.write pos (littleEndian 8 allocAbsent)
  | some v =>
    enc.deeper coding depth 1 fun depth enc =>
      (enc.write pos (littleEndian 8 allocPresent)).allocThen size (encode depth v)

/-- An unset envelope, or one without an encode function. -/
def encodeUnsetEnvelope (pos : Nat) (enc : Encoder) : Encoder :=
  enc.write pos (List.replicate 8 0)

/-- `WireEncodeEnvelope` with an encode function. -/
def encodeEnvelope {α : Type} (encode : α → Nat → Encoder → Encoder) (size : Nat)
    (v : Option α) (pos : Nat) (enc : Encoder) : Encoder :=
  let lengthBefore := enc.currentLength
  let handlesBefore := enc.handles.length
  match v with
  | none => encodeUnsetEnvelope pos enc
  | some v =>
    if size ≤ inliningSizeThreshold then
      -- Zero the inline bytes, in case of padding.
      let enc := encode v pos (enc.write pos (List.replicate 4 0))
      let enc :=
        enc.write (pos + 4) (littleEndian 2 (enc.handles.length - handlesBefore))
      enc.write (pos + 6) (littleEndian 2 1)
    else
      enc.allocThen size fun body enc =>
        let enc := encode v body enc
        let enc :=
          enc.write pos (littleEndian 4 (enc.currentLength - lengthBefore))
        let enc :=
          enc.write (pos + 4) (littleEndian 2 (enc.handles.length - handlesBefore))
        enc.write (pos + 6) (littleEndian 2 0)

/-- `WireZeroPadding` of every word that holds padding. -/
def zeroPaddings (pos : Nat) : List Padding → Encoder → Encoder
  | [], enc => enc
  | padding :: rest, enc =>
    zeroPaddings pos rest
      (enc.write (pos + padding.offset) (List.replicate padding.mask.length 0))

section

variable (coding : Coding) (cfg : Config)

mutual

/-- `WireCodingTraits<T>::Encode`. The drivers of structs and tables are
generated. -/
def Ty.encode : (ty : Ty) → (depth : Nat) → ty.Value → (pos : Nat) → Encoder → Encoder
  | .primitive _, _, v, pos, enc => enc.write pos (Vector.toList v)
  | .bool, _, v, pos, enc => enc.write pos [boolByte v]
  | .array element _, depth, v, pos, enc =>
    if element.isMemcpyCompatible then
      enc.write pos ((Vector.toList v).flatMap element.raw)
    else
      encodeEach (Ty.encode element depth) element.inlineSize (Vector.toList v) pos enc
  | .vector element limit optional, depth, v, pos, enc =>
    encodeVector coding (if element.isMemcpyCompatible then some element.raw else none)
      (fun depth => Ty.encode element depth) element.inlineSize limit optional v pos depth
      enc
  | .string limit optional, depth, v, pos, enc =>
    encodeString coding limit optional v pos depth enc
  | .handle attrs optional, _, v, pos, enc =>
    enc.encodeHandle cfg v attrs pos optional
  | .box inner, depth, v, pos, enc =>
    encodeBox coding (fun depth => Ty.encode inner depth) inner.inlineSize v pos depth enc
  | .struct members paddings, depth, v, pos, enc =>
    Members.encode members depth v pos (zeroPaddings pos paddings enc)
  | .table fields, depth, v, pos, enc =>
    let enc := enc.write pos (vectorHeader (fields.count v) allocPresent)
    if fields.count v = 0 then enc
    else
      enc.allocThen (8 * fields.count v) fun base enc =>
        enc.deeper coding depth coding.tableDepth fun depth enc =>
          Fields.encode fields depth v base enc

def Members.encode : (members : Members) → (depth : Nat) → members.Value → (pos : Nat) →
    Encoder → Encoder
  | .nil, _, _, _, enc => enc
  | .cons ty gap rest, depth, v, pos, enc =>
    Members.encode rest depth v.2 (pos + (ty.inlineSize + gap))
      (Ty.encode ty depth v.1 pos enc)

def Fields.encode : (fields : Fields) → (depth : Nat) → fields.Value → (pos : Nat) →
    Encoder → Encoder
  | .nil, _, more, pos, enc =>
    encodeEach (fun _ : Envelope => encodeUnsetEnvelope) 8 more pos enc
  | .reserved _, _, none, _, enc => enc
  | .reserved rest, depth, some v, pos, enc =>
    Fields.encode rest depth v.2 (pos + 8) (encodeUnsetEnvelope pos enc)
  | .field _ _, _, none, _, enc => enc
  | .field ty rest, depth, some v, pos, enc =>
    Fields.encode rest depth v.2 (pos + 8)
      (encodeEnvelope (Ty.encode ty depth) ty.inlineSize v.1 pos enc)

end

end

/-! ## WireEncode -/

/-- What `Finish` reports: an error, or the iovecs and handles. -/
inductive Outcome where
  | error (error : CodingError)
  | ok (iovecs : List Iovec) (handles : List Handle)
  deriving DecidableEq, Repr

/-- The handles that the caller gets. -/
def Outcome.returned : Outcome → List Handle
  | .error _ => []
  | .ok _ handles => handles

namespace Encoder

/-- The check that `Alloc` defers to `Finish`. -/
def checkSize (enc : Encoder) : Encoder :=
  if enc.capacity < enc.next then enc.setError .backingBufferSizeExceeded else enc

/-- The iovecs with the one that `Finish` emits. -/
def finalIovecs (enc : Encoder) : List Iovec :=
  if enc.consumedBytesInCurrentIovec > 0 then
    enc.iovecs ++ [.within enc.begin enc.consumedBytesInCurrentIovec]
  else enc.iovecs

/-- The encoder after `Finish`. -/
def finished (enc : Encoder) : Encoder :=
  { enc with
    iovecs := enc.finalIovecs
    overrun := enc.consumedBytesInCurrentIovec > 0 ∧ enc.iovecs.length ≥ enc.iovecCapacity }

/-- `Finish`. -/
def finish (enc : Encoder) : Outcome × Encoder :=
  match enc.checkSize.error with
  | some error =>
    (.error error, { enc.checkSize with closed := enc.closed ++ enc.handles })
  | none => (.ok enc.finalIovecs enc.handles, enc.finished)

lemma checkSize_error (enc : Encoder) : enc.checkSize.error.isSome = enc.hasError := by
  unfold checkSize hasError setError
  by_cases beyond : enc.capacity < enc.next
  · cases enc.error <;> simp [beyond]
  · simp [beyond]

lemma checkSize_released (enc : Encoder) : enc.checkSize.released = enc.released := by
  unfold checkSize
  split <;> rfl

lemma finish_of_error {enc : Encoder} (failed : enc.hasError = true) : ∃ error, enc.finish =
      (.error error, { enc.checkSize with closed := enc.closed ++ enc.handles }) := by
  rw [← checkSize_error, Option.isSome_iff_exists] at failed
  obtain ⟨error, found⟩ := failed
  exact ⟨error, by rw [finish, found]⟩

lemma finish_of_sound {enc : Encoder} (sound : enc.hasError = false) : enc.finish =
      (.ok enc.finalIovecs enc.handles, enc.finished) := by
  rw [← checkSize_error, Option.isSome_eq_false_iff, Option.isNone_iff_eq_none] at sound
  rw [finish, sound]

lemma finish_eq_ok {enc after : Encoder} {iovecs : List Iovec} {handles : List Handle}
    (finished : enc.finish = (.ok iovecs handles, after)) :
    enc.hasError = false ∧ iovecs = enc.finalIovecs ∧ handles = enc.handles ∧ after.memory = enc.memory := by
  cases failed : enc.hasError with
  | true =>
    obtain ⟨_, refused⟩ := finish_of_error failed
    rw [refused] at finished
    cases finished
  | false =>
    rw [finish_of_sound failed] at finished
    cases finished
    exact ⟨rfl, rfl, rfl, rfl⟩

end Encoder

/-- `WireEncode` of a value, with a fresh encoder. The pointers it is given are
not null. -/
def wireEncode (coding : Coding) (cfg : Config) (ty : Ty) (v : ty.Value)
    (enc : Encoder) : Outcome × Encoder :=
  (enc.allocThen ty.inlineSize (Ty.encode coding cfg ty 0 v)).finish

/-! ## What every encoding keeps -/

/-- A relation between the encoder before and after, given the handles of what is
encoded in between, that the encoder's own methods respect. -/
structure Respected (cfg : Config) (relation : List Handle → Encoder → Encoder → Prop) :
    Prop where
  refl : ∀ enc, relation [] enc enc
  trans : ∀ {handles more first second third}, relation handles first second →
    relation more second third → relation (handles ++ more) first third
  weaken : ∀ {handles first second}, relation [] first second → relation handles first second
  write : ∀ enc pos bytes, relation [] enc (enc.write pos bytes)
  alloc : ∀ enc size, relation [] enc (enc.alloc size).2
  memcpy : ∀ enc bytes, relation [] enc (enc.encodeMemcpyableVector bytes)
  setError : ∀ enc error, relation [] enc (enc.setError error)
  handle : ∀ enc handle attrs pos optional,
    relation ([handle].filter fun handle => handle != 0) enc
      (enc.encodeHandle cfg handle attrs pos optional)

lemma flatMap_none (values : List α) : values.flatMap (fun _ => ([] : List Handle)) = [] :=
  List.flatMap_eq_nil_iff.mpr fun _ _ => rfl

namespace Respected

variable {cfg : Config} {coding : Coding} {relation : List Handle → Encoder → Encoder → Prop}
  {α : Type} {enc : Encoder} {optional : Bool}

variable (kept : Respected cfg relation)

include kept

lemma each (handles : α → List Handle)
    (one : ∀ v pos enc, relation (handles v) enc (encode v pos enc))
    (stride : Nat) (values : List α) (pos : Nat) (enc : Encoder) :
    relation (values.flatMap handles) enc (encodeEach encode stride values pos enc) := by
  induction values generalizing pos enc with
  | nil => exact kept.refl enc
  | cons v _ ih => exact kept.trans (one v pos enc) (ih ..)

lemma follow (quiet : relation [] first second) (rest : relation handles second third) :
    relation handles first third :=
  kept.trans quiet rest

lemma thenWrite (before : relation handles enc after) : relation handles enc (after.write pos bytes) := by
  have both := kept.trans before (kept.write after pos bytes)
  rwa [List.append_nil] at both

lemma allocThen (handles : List Handle) (inside : ∀ pos enc, relation handles enc (body pos enc)) :
    relation handles enc (enc.allocThen size body) := by
  have moved := kept.alloc enc size
  unfold Encoder.allocThen
  split
  next after failed =>
    rw [failed] at moved
    exact kept.weaken moved
  next pos after done =>
    rw [done] at moved
    exact kept.follow moved (inside pos after)

lemma deeper (handles : List Handle) {depth diff : Nat} {body : Nat → Encoder → Encoder}
    (inside : ∀ depth enc, relation handles enc (body depth enc)) :
    relation handles enc (enc.deeper coding depth diff body) := by
  unfold Encoder.deeper
  split
  · exact kept.weaken (kept.setError ..)
  · exact inside ..

lemma vector (handles : α → List Handle) (one : ∀ depth v pos enc,
      relation (handles v) enc (encode depth v pos enc)) :
    relation ((values.getD []).flatMap handles) enc
      (encodeVector coding raw encode stride limit optional values pos depth enc) := by
  cases values with
  | none => exact kept.write ..
  | some values =>
    by_cases beyond : values.length > limit
    · rw [encodeVector_over beyond]
      exact kept.weaken (kept.setError ..)
    cases values with
    | nil => exact kept.write ..
    | cons v =>
      rw [encodeVector_cons beyond]
      refine kept.follow (kept.write ..) (kept.deeper _ fun depth enc => ?_)
      cases raw with
      | some raw => exact kept.weaken (kept.memcpy ..)
      | none =>
        exact kept.allocThen _ fun pos enc => kept.each handles (one depth) ..

lemma string : relation [] enc (encodeString coding limit optional bytes pos depth enc) := by
  have body : relation [] enc (encodeVector coding (some fun byte => [byte])
      (fun _ _ _ enc => enc) 1 limit optional bytes pos depth enc) := by
    rw [← flatMap_none (bytes.getD [])]
    exact kept.vector _ fun _ _ _ enc => kept.refl enc
  unfold encodeString
  simp only
  split
  · exact body
  split
  · exact body
  split
  · exact body
  · exact kept.trans body (kept.setError ..)

lemma box (handles : α → List Handle) (one : ∀ depth v pos enc,
      relation (handles v) enc (encode depth v pos enc)) : relation (v.toList.flatMap handles) enc
      (encodeBox coding encode size v pos depth enc) := by
  cases v with
  | none => exact kept.write ..
  | some v =>
    rw [Option.toList_some, List.flatMap_singleton]
    exact kept.deeper _ fun depth enc =>
      kept.trans (kept.write ..) (kept.allocThen _ (one depth v))

lemma envelope (handles : α → List Handle)
    (one : ∀ v pos enc, relation (handles v) enc (encode v pos enc)) :
    relation (v.toList.flatMap handles) enc (encodeEnvelope encode size v pos enc) := by
  unfold encodeEnvelope
  cases v with
  | none => exact kept.write ..
  | some v =>
    rw [Option.toList_some, List.flatMap_singleton]
    simp only
    split
    · refine kept.thenWrite (kept.thenWrite ?_)
      exact kept.trans (kept.write ..) (one ..)
    · refine kept.allocThen _ fun body enc => ?_
      exact kept.thenWrite (kept.thenWrite (kept.thenWrite (one ..)))

lemma zeroPaddings (paddings : List Padding) :
    relation [] enc (WireEncoder.zeroPaddings pos paddings enc) := by
  induction paddings generalizing enc with
  | nil => exact kept.refl enc
  | cons _ _ ih => exact kept.trans (kept.write ..) ih

mutual

lemma encode : (ty : Ty) → (depth : Nat) → (v : ty.Value) → (pos : Nat) → (enc : Encoder) →
      relation (ty.handles v) enc (Ty.encode coding cfg ty depth v pos enc)
  | .primitive _, _, _, _, _ => kept.weaken (kept.write ..)
  | .bool, _, _, _, _ => kept.weaken (kept.write ..)
  | .array element _, depth, v, pos, enc => by
    simp only [Ty.encode, Ty.handles]
    split
    · exact kept.weaken (kept.write ..)
    · exact kept.each element.handles (encode element depth) ..
  | .vector element _ _, depth, v, pos, enc =>
    kept.vector element.handles fun depth => encode element depth
  | .string _ _, _, _, _, _ => kept.weaken kept.string
  | .handle _ _, _, _, _, _ => kept.handle ..
  | .box inner, _, _, _, _ => kept.box inner.handles fun depth => encode inner depth
  | .struct members paddings, depth, v, pos, enc =>
    kept.trans (kept.zeroPaddings paddings)
      (encodeMembers members depth v pos _)
  | .table fields, depth, v, pos, enc => by
    simp only [Ty.encode, Ty.handles]
    split
    · exact kept.weaken (kept.write ..)
    refine kept.trans (kept.write ..) (kept.allocThen _ fun base enc => ?_)
    exact kept.deeper _ fun depth enc =>
      encodeFields fields depth v base enc

lemma encodeMembers : (members : Members) → (depth : Nat) → (v : members.Value) →
    (pos : Nat) → (enc : Encoder) → relation (members.handles v) enc
        (Members.encode coding cfg members depth v pos enc)
  | .nil, _, _, _, enc => kept.refl enc
  | .cons ty _ rest, depth, v, pos, enc =>
    kept.trans (encode ty depth v.1 pos enc)
      (encodeMembers rest depth v.2 _ _)

lemma encodeFields : (fields : Fields) → (depth : Nat) → (v : fields.Value) →
    (pos : Nat) → (enc : Encoder) → relation (fields.handles v) enc
        (Fields.encode coding cfg fields depth v pos enc)
  | .nil, _, _, _, _ =>
    kept.weaken (flatMap_none _ ▸ kept.each _ (fun _ _ _ => kept.write ..) ..)
  | .reserved _, _, none, _, enc => kept.refl enc
  | .reserved rest, depth, some v, _, _ =>
    kept.trans (kept.write ..) (encodeFields rest depth v.2 _ _)
  | .field _ _, _, none, _, enc => kept.refl enc
  | .field ty rest, depth, some v, _, _ =>
    kept.trans (kept.envelope ty.handles (encode ty depth))
      (encodeFields rest depth v.2 _ _)

end

end Respected

end FuchsiaSdk.WireEncoder
