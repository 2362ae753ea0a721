import FuchsiaSdk.WireFormat

/-! `WireDecoder` (`fidl/cpp/wire/wire_decoder.h`) and the decoding half of the
wire coding traits (`wire_coding_traits.h`), which turn the received bytes into
an object in place. Positions are offsets in the buffer; a pointer that is
written there is the address of an object. Counts and strides are below `2^32`,
so no size wraps. Errors are sticky and decoding goes on after them. -/
namespace FuchsiaSdk.WireDecoder
open Memory WireFormat

structure Decoder where
  /-- The address of the buffer. -/
  base : Nat
  /-- `num_bytes_`. -/
  size : Nat
  memory : Memory
  handles : List Handle
  /-- `handle_index_`. -/
  index : Nat := 0
  /-- `next_out_of_line_`. -/
  next : Nat := 0
  error : Option CodingError := none
  /-- The handles that were closed, in order. -/
  closed : List Handle := []

/-- The outcome of `decode_process_handle` per handle index. -/
structure Config where
  processHandle : HandleAttributes → Nat → HandleCheck

namespace Decoder

def setError (dec : Decoder) (error : CodingError) : Decoder :=
  { dec with error := dec.error <|> some error }

def write (dec : Decoder) (pos : Nat) (bytes : List UInt8) : Decoder :=
  { dec with memory := store dec.memory pos bytes }

/-- Write the address of the object at an offset. -/
def point (dec : Decoder) (pos target : Nat) : Decoder :=
  dec.write pos (littleEndian 8 (dec.base + target))

def advance (dec : Decoder) (next : Nat) : Decoder := { dec with next }

/-- `Alloc`, which checks the padding up to the next multiple of eight. -/
def alloc (dec : Decoder) (size : Nat) : Option Nat × Decoder :=
  if size = 0 then (some dec.next, dec)
  else
    let unaligned := dec.next + size
    let next := align unaligned
    if next > dec.size then (none, dec.setError .backingBufferSizeExceeded)
    else if (load dec.memory unaligned (next - unaligned)).any (· ≠ 0) then
      (none, dec.setError .invalidPaddingBytes)
    else (some dec.next, dec.advance next)

/-- What is decoded after `Alloc`, if that succeeds. -/
def allocThen (dec : Decoder) (size : Nat) (body : Nat → Decoder → Decoder) : Decoder :=
  match dec.alloc size with
  | (none, dec) => dec
  | (some pos, dec) => body pos dec

/-- `close_many`. -/
def closeMany (dec : Decoder) (handles : List Handle) : Decoder :=
  { dec with closed := dec.closed ++ close handles }

/-- `CloseNextNHandles`. -/
def closeNextNHandles (dec : Decoder) (count : Nat) : Decoder :=
  if count > dec.handles.length - dec.index then
    dec.setError .invalidNumHandlesSpecifiedInEnvelope
  else
    let stop := dec.index + count
    { dec.closeMany ((dec.handles.drop dec.index).take count) with
      handles := dec.handles.take dec.index ++ List.replicate count 0 ++ dec.handles.drop stop
      index := stop }

def storeHandle (dec : Decoder) (pos : Nat) (handle : Handle) : Decoder :=
  { dec.write pos (littleEndian 4 handle.toNat) with
    handles := dec.handles.set dec.index handle
    index := dec.index + 1 }

/-- What the check does with a handle that it refuses. -/
def dropHandle (dec : Decoder) (handle : Handle) (cleared : Bool) : Decoder :=
  { dec.closeMany [handle] with
    handles := dec.handles.set dec.index (if cleared then 0 else handle) }

/-- `DecodeHandle`. -/
def decodeHandle (dec : Decoder) (cfg : Config) (pos : Nat)
    (attrs : HandleAttributes) (optional : Bool) : Decoder :=
  if word dec.memory pos 4 = handlePresent then
    match dec.handles[dec.index]? with
    | none => dec.setError .tooManyHandlesConsumed
    | some handle =>
      if handle = 0 then dec.setError .invalidHandleInInput
      else
        match cfg.processHandle attrs dec.index with
        | .unchanged => dec.storeHandle pos handle
        | .replaced successor => dec.storeHandle pos successor
        | .refused cleared => (dec.dropHandle handle cleared).setError .handleProcessing
  else if word dec.memory pos 4 = handleAbsent then
    if optional then dec else dec.setError .absentNonNullableHandle
  else dec.setError .invalidPresenceIndicator

/-- `RecursionDepth::Add`, and what is decoded below it. -/
def deeper (dec : Decoder) (coding : Coding) (depth diff : Nat)
    (body : Nat → Decoder → Decoder) : Decoder :=
  match coding.add depth diff with
  | none => dec.setError .recursionDepthExceeded
  | some depth => body depth dec

/-- `WireCheckPadding`. -/
def checkPadding (dec : Decoder) (pos : Nat) (padding : Padding) : Decoder :=
  let word := load dec.memory (pos + padding.offset) padding.mask.length
  if (List.zipWith (· &&& ·) word padding.mask).any (· ≠ 0) then
    dec.setError .invalidPaddingBytes
  else dec

end Decoder

/-! ## Coding traits -/

def decodeEach {State : Type} (decode : Nat → State → State) (stride : Nat) :
    (count : Nat) → (pos : Nat) → State → State
  | 0, _, st => st
  | count + 1, pos, st =>
    decodeEach decode stride count (pos + stride) (decode pos st)

/-- `VectorCodingTraitHelper::DecodePrework`: whether there is a body. -/
def decodePrework (pos : Nat) (optional : Bool) (limit : Nat) (dec : Decoder) :
    Bool × Decoder :=
  let count := word dec.memory pos 8
  let data := word dec.memory (pos + 8) 8
  if count > limit then (false, dec.setError .vectorLimitExceeded)
  else if count > 2 ^ 32 - 1 then (false, dec.setError .allocationSizeExceeds32Bits)
  else if data = allocPresent then (true, dec)
  else if data = allocAbsent then
    if !optional then (false, dec.setError .nullDataReceivedForNonNullableVector)
    else if count ≠ 0 then (false, dec.setError .nullVectorMustHaveSizeZero)
    else (false, dec)
  else (false, dec.setError .invalidPresenceIndicator)

/-- The body of a vector whose header is at a position. -/
def decodeElements (compatible : Bool) (decode : Nat → Decoder → Decoder) (stride pos : Nat)
    (dec : Decoder) : Decoder :=
  let count := word dec.memory pos 8
  dec.allocThen (count * stride) fun base dec =>
    if compatible then dec.point (pos + 8) base
    else decodeEach decode stride count base (dec.point (pos + 8) base)

/-- `VectorCodingTraitHelper::Decode`. -/
def decodeVector (coding : Coding) (compatible : Bool) (decode : Nat → Nat → Decoder → Decoder)
    (stride limit : Nat) (optional : Bool) (pos depth : Nat) (dec : Decoder) : Decoder :=
  match decodePrework pos optional limit dec with
  | (false, dec) => dec
  | (true, dec) =>
    dec.deeper coding depth 1 fun depth dec =>
      decodeElements compatible (decode depth) stride pos dec

/-- `WireCodingTraits<fidl::StringView>::Decode`. -/
def decodeString (coding : Coding) (limit : Nat) (optional : Bool) (pos depth : Nat)
    (dec : Decoder) : Decoder :=
  let dec := decodeVector coding true (fun _ _ dec => dec) 1 limit optional pos
    depth dec
  let data := word dec.memory (pos + 8) 8
  if data = 0 ∨ dec.error.isSome then dec
  else if coding.isValidUtf8 (load dec.memory (data - dec.base) (word dec.memory pos 8)) then dec
  else dec.setError .stringNotValidUtf8

/-- `WireCodingTraits<fidl::ObjectView<T>>::Decode`. -/
def decodeBox (coding : Coding) (decode : Nat → Nat → Decoder → Decoder) (size : Nat)
    (pos depth : Nat) (dec : Decoder) : Decoder :=
  if word dec.memory pos 8 = allocPresent then
    dec.deeper coding depth 1 fun depth dec =>
      dec.allocThen size fun body dec => decode depth body (dec.point pos body)
  else if word dec.memory pos 8 = allocAbsent then dec
  else dec.setError .invalidPresenceIndicator

/-- `WireDecodeUnknownEnvelope`. -/
def decodeUnknownEnvelope (pos : Nat) (dec : Decoder) : Decoder :=
  let numBytes := word dec.memory pos 4
  let numHandles := word dec.memory (pos + 4) 2
  let flags := word dec.memory (pos + 6) 2
  if flags = 0 then
    if numBytes % 8 ≠ 0 then dec.setError .invalidNumBytesSpecifiedInEnvelope
    else dec.allocThen numBytes fun _ dec => dec.closeNextNHandles numHandles
  else if flags ≠ 1 then dec.setError .invalidInlineBit
  else dec.closeNextNHandles numHandles

/-- `WireDecodeEnvelope`. -/
def decodeEnvelope (decode : Nat → Decoder → Decoder) (size : Nat) (pos : Nat)
    (dec : Decoder) : Decoder :=
  let lengthBefore := dec.next
  let handlesBefore := dec.index
  let numBytes := word dec.memory pos 4
  let numHandles := word dec.memory (pos + 4) 2
  let flags := word dec.memory (pos + 6) 2
  if size ≤ inliningSizeThreshold then
    if flags ≠ 1 then dec.setError .invalidInlineBit
    else
      let dec := decode pos dec
      if dec.index ≠ handlesBefore + numHandles then
        dec.setError .invalidNumHandlesSpecifiedInEnvelope
      else if (load dec.memory (pos + size) (4 - size)).any (· ≠ 0) then
        dec.setError .invalidPaddingBytes
      else dec
  else if flags ≠ 0 then dec.setError .invalidInlineBit
  else
    dec.allocThen size fun body dec =>
      let dec := decode body (dec.point pos body)
      if dec.index ≠ handlesBefore + numHandles then
        dec.setError .invalidNumHandlesSpecifiedInEnvelope
      else if dec.next ≠ lengthBefore + numBytes then
        dec.setError .invalidNumBytesSpecifiedInEnvelope
      else dec

/-- `WireDecodeOptionalEnvelope`, with the decoding of an envelope that is set. -/
def decodeOptionalEnvelope (decode : Nat → Decoder → Decoder) (pos : Nat)
    (dec : Decoder) : Decoder :=
  if word dec.memory pos 8 = 0 then dec else decode pos dec

/-- `WireTableCodingTraitsBase::DecodePrework`, and what is decoded of the
envelopes. -/
def decodeTable (pos : Nat) (body : (count base : Nat) → Decoder → Decoder)
    (dec : Decoder) : Decoder :=
  let count := word dec.memory pos 8
  if word dec.memory (pos + 8) 8 ≠ allocPresent then
    dec.setError .nullDataReceivedForTable
  else if count > 2 ^ 32 - 1 then dec.setError .allocationSizeExceeds32Bits
  else
    dec.allocThen (8 * count) fun base dec =>
      body count base (dec.point (pos + 8) base)

def checkPaddings (pos : Nat) : List Padding → Decoder → Decoder
  | [], dec => dec
  | padding :: rest, dec => checkPaddings pos rest (dec.checkPadding pos padding)

section

variable (coding : Coding) (cfg : Config)

mutual

/-- `WireCodingTraits<T>::Decode`. The drivers of structs and tables are
generated. -/
def Ty.decode : (ty : Ty) → (depth pos : Nat) → Decoder → Decoder
  | .primitive _, _, _, dec => dec
  | .bool, _, pos, dec =>
    if dec.memory pos = 0 ∨ dec.memory pos = 1 then dec
    else dec.setError .invalidBoolean
  | .array element count, depth, pos, dec =>
    if element.isMemcpyCompatible then dec
    else decodeEach (Ty.decode element depth) element.inlineSize count pos dec
  | .vector element limit optional, depth, pos, dec =>
    decodeVector coding element.isMemcpyCompatible (fun depth => Ty.decode element depth)
      element.inlineSize limit optional pos depth dec
  | .string limit optional, depth, pos, dec =>
    decodeString coding limit optional pos depth dec
  | .handle attrs optional, _, pos, dec =>
    dec.decodeHandle cfg pos attrs optional
  | .box inner, depth, pos, dec =>
    decodeBox coding (fun depth => Ty.decode inner depth) inner.inlineSize pos depth dec
  | .struct members paddings, depth, pos, dec =>
    Members.decode members depth pos (checkPaddings pos paddings dec)
  | .table fields, depth, pos, dec =>
    decodeTable pos (fun count base dec =>
      dec.deeper coding depth coding.tableDepth fun depth dec =>
        Fields.decode fields depth count base dec) dec

def Members.decode : (members : Members) → (depth pos : Nat) → Decoder → Decoder
  | .nil, _, _, dec => dec
  | .cons ty gap rest, depth, pos, dec =>
    Members.decode rest depth (pos + (ty.inlineSize + gap)) (Ty.decode ty depth pos dec)

/-- The envelopes of a table; those of reserved or unknown ordinals have no
decode function. -/
def Fields.decode : (fields : Fields) → (depth count pos : Nat) → Decoder → Decoder
  | .nil, _, count, pos, dec =>
    decodeEach (decodeOptionalEnvelope decodeUnknownEnvelope) 8 count pos dec
  | _, _, 0, _, dec => dec
  | .reserved rest, depth, count + 1, pos, dec =>
    Fields.decode rest depth count (pos + 8)
      (decodeOptionalEnvelope decodeUnknownEnvelope pos dec)
  | .field ty rest, depth, count + 1, pos, dec =>
    Fields.decode rest depth count (pos + 8)
      (decodeOptionalEnvelope (decodeEnvelope (Ty.decode ty depth) ty.inlineSize) pos dec)

end

end

/-! ## WireDecode -/

/-- `Finish`. -/
def Decoder.finish (dec : Decoder) : Option CodingError × Decoder :=
  match dec.error with
  | some error => (some error, dec.closeMany dec.handles)
  | none => (none, dec)

/-- The checks that the whole message was consumed. -/
def Decoder.checkConsumed (dec : Decoder) : Decoder :=
  let dec :=
    if dec.next < dec.size then dec.setError .notAllBytesConsumed else dec
  if dec.index < dec.handles.length then dec.setError .notAllHandlesConsumed else dec

/-- `WireDecode` of a message of the supported wire format, with a fresh
decoder. The pointers it is given are not null. -/
def wireDecode (coding : Coding) (cfg : Config) (ty : Ty) (dec : Decoder) :
    Option CodingError × Decoder :=
  (dec.allocThen ty.inlineSize (Ty.decode coding cfg ty 0)).checkConsumed.finish

/-! ## What every decoding keeps -/

/-- A relation between the decoder before and after that the decoder's own
methods respect. -/
structure Respected (cfg : Config) (relation : Decoder → Decoder → Prop) : Prop where
  refl : ∀ dec, relation dec dec
  trans : ∀ {first second third}, relation first second → relation second third →
    relation first third
  point : ∀ dec pos target, relation dec (dec.point pos target)
  alloc : ∀ dec size, relation dec (dec.alloc size).2
  setError : ∀ dec error, relation dec (dec.setError error)
  close : ∀ dec count, relation dec (dec.closeNextNHandles count)
  handle : ∀ dec pos attrs optional, relation dec (dec.decodeHandle cfg pos attrs optional)

namespace Respected

variable {cfg : Config} {coding : Coding} {relation : Decoder → Decoder → Prop}
  {dec after : Decoder} {optional : Bool}

variable (kept : Respected cfg relation)

include kept

lemma thenSetError (before : relation dec after) : relation dec (after.setError error) :=
  kept.trans before (kept.setError ..)

lemma allocThen (inside : ∀ pos dec, relation dec (body pos dec)) :
    relation dec (dec.allocThen size body) := by
  have moved := kept.alloc dec size
  unfold Decoder.allocThen
  split
  next failed => rwa [failed] at moved
  next done =>
    rw [done] at moved
    exact kept.trans moved (inside ..)

lemma deeper {depth diff : Nat}
    {body : Nat → Decoder → Decoder} (inside : ∀ depth, relation dec (body depth dec)) :
    relation dec (dec.deeper coding depth diff body) := by
  unfold Decoder.deeper
  split
  · exact kept.setError ..
  · exact inside _

lemma each (one : ∀ pos dec, relation dec (decode pos dec)) (stride count : Nat)
    (pos : Nat) (dec : Decoder) : relation dec (decodeEach decode stride count pos dec) := by
  induction count generalizing pos dec with
  | zero => exact kept.refl dec
  | succ count ih => exact kept.trans (one pos dec) (ih ..)

lemma prework : relation dec (decodePrework pos optional limit dec).2 := by
  unfold decodePrework
  simp only
  repeat' split
  all_goals first
    | exact kept.refl dec
    | exact kept.setError ..

lemma vector (one : ∀ depth pos dec, relation dec (decode depth pos dec)) : relation dec
      (decodeVector coding compatible decode stride limit optional pos depth dec) := by
  have header : relation dec (decodePrework pos optional limit dec).2 :=
    kept.prework
  unfold decodeVector
  split <;> rename_i prework
  · rwa [prework] at header
  · rw [prework] at header
    refine kept.trans header (kept.deeper fun depth => ?_)
    refine kept.allocThen fun base dec => ?_
    split
    · exact kept.point ..
    · exact kept.trans (kept.point ..) (kept.each (one depth) ..)

lemma string : relation dec (decodeString coding limit optional pos depth dec) := by
  have body : relation dec (decodeVector coding true (fun _ _ dec => dec) 1 limit
      optional pos depth dec) := kept.vector fun _ _ dec => kept.refl dec
  unfold decodeString
  simp only
  split
  · exact body
  split
  · exact body
  · exact kept.thenSetError body

lemma box (one : ∀ depth pos dec, relation dec (decode depth pos dec)) :
    relation dec (decodeBox coding decode size pos depth dec) := by
  unfold decodeBox
  split
  · exact kept.deeper fun depth => kept.allocThen fun body dec =>
      kept.trans (kept.point ..) (one ..)
  · split
    · exact kept.refl dec
    · exact kept.setError ..

lemma unknownEnvelope : relation dec (decodeUnknownEnvelope pos dec) := by
  unfold decodeUnknownEnvelope
  simp only
  split
  · split
    · exact kept.setError ..
    · exact kept.allocThen fun _ dec => kept.close ..
  · split
    · exact kept.setError ..
    · exact kept.close ..

lemma envelope (one : ∀ pos dec, relation dec (decode pos dec)) :
    relation dec (decodeEnvelope decode size pos dec) := by
  unfold decodeEnvelope
  simp only
  split
  · split
    · exact kept.setError ..
    split
    · exact kept.thenSetError (one ..)
    split
    · exact kept.thenSetError (one ..)
    · exact one ..
  · split
    · exact kept.setError ..
    refine kept.allocThen fun body dec => ?_
    have inside := kept.trans (kept.point dec pos body) (one body _)
    split
    · exact kept.thenSetError inside
    split
    · exact kept.thenSetError inside
    · exact inside

lemma optionalEnvelope (one : ∀ pos dec, relation dec (decode pos dec)) (pos : Nat)
    (dec : Decoder) : relation dec (decodeOptionalEnvelope decode pos dec) := by
  unfold decodeOptionalEnvelope
  split
  · exact kept.refl dec
  · exact one ..

lemma table (inside : ∀ count base dec, relation dec (body count base dec)) :
    relation dec (decodeTable pos body dec) := by
  unfold decodeTable
  simp only
  split
  · exact kept.setError ..
  split
  · exact kept.setError ..
  · exact kept.allocThen fun base dec =>
      kept.trans (kept.point ..) (inside ..)

lemma checkPaddings (paddings : List Padding) :
    relation dec (WireDecoder.checkPaddings pos paddings dec) := by
  induction paddings generalizing dec with
  | nil => exact kept.refl dec
  | cons _ _ ih =>
    refine kept.trans ?_ ih
    unfold Decoder.checkPadding
    simp only
    split
    · exact kept.setError ..
    · exact kept.refl dec

mutual

lemma decode : (ty : Ty) → (depth pos : Nat) → (dec : Decoder) →
      relation dec (Ty.decode coding cfg ty depth pos dec)
  | .primitive _, _, _, dec => kept.refl dec
  | .bool, _, _, dec => by
    simp only [Ty.decode]
    split
    · exact kept.refl dec
    · exact kept.setError ..
  | .array element _, depth, _, dec => by
    simp only [Ty.decode]
    split
    · exact kept.refl dec
    · exact kept.each (decode element depth) ..
  | .vector element _ _, _, _, _ => kept.vector fun depth => decode element depth
  | .string _ _, _, _, _ => kept.string
  | .handle _ _, _, _, _ => kept.handle ..
  | .box inner, _, _, _ => kept.box fun depth => decode inner depth
  | .struct members paddings, depth, pos, _ =>
    kept.trans (kept.checkPaddings paddings)
      (decodeMembers members depth pos _)
  | .table fields, _, _, _ =>
    kept.table fun count base dec => kept.deeper fun depth =>
      decodeFields fields depth count base dec

lemma decodeMembers : (members : Members) → (depth pos : Nat) → (dec : Decoder) →
      relation dec (Members.decode coding cfg members depth pos dec)
  | .nil, _, _, dec => kept.refl dec
  | .cons ty _ rest, depth, pos, dec =>
    kept.trans (decode ty depth pos dec)
      (decodeMembers rest depth _ _)

lemma decodeFields : (fields : Fields) → (depth count pos : Nat) → (dec : Decoder) →
      relation dec (Fields.decode coding cfg fields depth count pos dec)
  | .nil, _, _, _, _ =>
    kept.each (kept.optionalEnvelope fun _ _ => kept.unknownEnvelope) ..
  | .reserved _, _, 0, _, dec => kept.refl dec
  | .reserved rest, depth, count + 1, _, _ =>
    kept.trans (kept.optionalEnvelope (fun _ _ => kept.unknownEnvelope) ..)
      (decodeFields rest depth count _ _)
  | .field _ _, _, 0, _, dec => kept.refl dec
  | .field ty rest, depth, count + 1, _, _ =>
    kept.trans
      (kept.optionalEnvelope (fun _ _ => kept.envelope (decode ty depth)) ..)
      (decodeFields rest depth count _ _)

end

end Respected

/-- Errors stay. -/
def Sticky (before after : Decoder) : Prop :=
  before.error.isSome = true → after.error.isSome = true

lemma sticky_setError (dec : Decoder) (error : CodingError) : Sticky dec (dec.setError error) := by
  intro failed
  cases found : dec.error with
  | none => simp [found] at failed
  | some => simp [Decoder.setError, found]

lemma sticky_alloc (dec : Decoder) (size : Nat) : Sticky dec (dec.alloc size).2 := by
  unfold Decoder.alloc
  simp only
  split
  · exact id
  split
  · exact sticky_setError _ _
  split
  · exact sticky_setError _ _
  · exact id

lemma sticky_handle (dec : Decoder) (pos : Nat) (attrs : HandleAttributes) (optional : Bool) :
    Sticky dec (dec.decodeHandle cfg pos attrs optional) := by
  unfold Decoder.decodeHandle
  repeat' split
  all_goals first
    | exact id
    | exact sticky_setError dec _

lemma sticky_respected (cfg : Config) : Respected cfg Sticky where
  refl _ := id
  trans := fun first second => second ∘ first
  point _ _ _ := id
  alloc := sticky_alloc
  setError := sticky_setError
  close dec count := by
    unfold Decoder.closeNextNHandles
    split
    · exact sticky_setError _ _
    · exact id
  handle := sticky_handle

end FuchsiaSdk.WireDecoder
