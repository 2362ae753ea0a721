import FuchsiaSdk.CodingTable

/-! The walker over coding tables (`fidl_base/include/lib/fidl/walker.h`) with the
visitor that decodes or validates a message in place
(`fidl_base/decoding_and_validating.cc`). Positions are offsets in the buffer, as
in `WireDecoder`. The walk ends at the first error. -/
namespace FuchsiaSdk.CodedDecoder
open Memory WireFormat CodingTable

/-- What the visitor and the walker report. -/
inductive DecodeError where
  | absentPointer
  | invalidPresenceMarker
  | outOfLineOverflow
  | outOfBytes
  | nonZeroPadding
  | invalidUtf8
  | garbageHandle
  | tooManyHandles
  | invalidHandle
  /-- What `FidlEnsureHandleRights` reports. -/
  | handleRefused
  | envelopeNumBytes
  | envelopeNumHandles
  | unknownHandlesOverflow
  | tooManyUnknownHandles
  | incomingHandlesOverflow
  | tooFewIncomingHandles
  | invalidBool
  | invalidEnum
  | invalidBits
  | invalidEmptyStruct
  | invalidInlineMarker
  | invalidInlineBit
  | absentTableWithCount
  | tableSizeOverflow
  | zeroOrdinalNotEmpty
  | absentUnion
  | emptyUnionWithOrdinal
  | unknownOrdinal
  | absentStringWithSize
  | stringSizeOverflow
  | stringTooLarge
  | missingHandle
  | absentVectorWithCount
  | vectorTooLarge
  | vectorSizeOverflow
  | recursionDepthExceeded
  | nullBytes
  | misalignedBytes
  | notStructTableOrUnion
  | bufferTooSmall
  | firstOutOfLineOverflow
  | bytesLeft
  | handlesLeft
  deriving DecidableEq, Repr

inductive Mode where
  | decode
  | validate
  deriving DecidableEq, Repr

/-- A `fidl_envelope_v2_t`. -/
structure EnvelopeCopy where
  numBytes : Nat
  numHandles : Nat
  flags : Nat
  deriving DecidableEq, Repr

def EnvelopeCopy.read (memory : Memory) (pos : Nat) : EnvelopeCopy where
  numBytes := word memory pos 4
  numHandles := word memory (pos + 4) 2
  flags := word memory (pos + 6) 2

/-- What the walker has called the visitor for. -/
inductive Visit where
  | object (pos size : Nat)
  | handle (attrs : HandleAttributes) (index : Nat)
  | unknown (envelope : EnvelopeCopy)
  deriving DecidableEq, Repr

structure Config where
  mode : Mode
  /-- `hlcpp_mode_`. -/
  hlcpp : Bool
  /-- What `DecodeProcessHandle` does with the handle at an index. -/
  processHandle : HandleAttributes → Nat → HandleCheck
  /-- `utfutils_is_valid_utf8`. -/
  isValidUtf8 : List UInt8 → Bool

/-- `DecodeProcessHandle`, with the handle metadata and the handles that
`zx_handle_replace` gives. -/
def decodeProcessHandle (metadata : Nat → HandleAttributes) (successor : Nat → Option Handle)
    (attrs : HandleAttributes) (index : Nat) : HandleCheck :=
  ensureHandleRights (metadata index) attrs (successor index)

/-- `FidlDecoder`. -/
structure Decoder where
  /-- The address of the buffer. -/
  base : Nat
  /-- `num_bytes_`. -/
  size : Nat
  memory : Memory
  handles : List Handle
  numHandles : Nat
  /-- `next_out_of_line_`. -/
  next : Nat
  /-- `handle_idx_`. -/
  index : Nat := 0
  /-- `unknown_handles_`. -/
  unknown : List Handle := []
  /-- For each incoming handle, itself or what replaced it. -/
  current : List Handle
  /-- The handles that were closed, in order. -/
  closed : List Handle := []
  /-- The unknown handles that are left for the caller. -/
  left : List Handle := []
  visits : List Visit := []

/-- How a call ends: it goes on, it has reported an error, or a `ZX_ASSERT`
failed. -/
inductive Outcome where
  | go (dec : Decoder)
  | exit (error : DecodeError) (dec : Decoder)
  | abort (dec : Decoder)

namespace Outcome

def decoder : Outcome → Decoder
  | go decoder => decoder
  | exit _ decoder => decoder
  | abort decoder => decoder

/-- `FIDL_STATUS_GUARD` and `FIDL_RESULT_GUARD`. -/
def andThen (outcome : Outcome) (body : Decoder → Outcome) : Outcome :=
  match outcome with
  | go dec => body dec
  | exit error dec => exit error dec
  | abort dec => abort dec

end Outcome

/-- `ZX_CHANNEL_MAX_MSG_HANDLES`. -/
def maxMsgHandles : Nat := 64

/-- `FIDL_MAX_DEPTH`. -/
def maxDepth : Nat := 32

/-- `uint32_t` subtraction. -/
def sub32 (left right : Nat) : Nat := (left + 2 ^ 32 - right) % 2 ^ 32

/-- `FidlAddOutOfLine`. -/
def addOutOfLine (off size : Nat) : Option Nat :=
  if off + size ≥ 2 ^ 32 then none
  else if off + size + 7 ≥ 2 ^ 32 then none
  else some (align (off + size))

/-! ## The visitor -/

inductive PointeeType where
  | vector
  | string
  | envelope
  | other
  deriving DecidableEq, Repr

namespace Decoder

/-- `AssignInDecode`. -/
def assign (dec : Decoder) (mode : Mode) (pos : Nat) (bytes : List UInt8) : Decoder :=
  match mode with
  | .decode => { dec with memory := store dec.memory pos bytes }
  | .validate => dec

def visit (dec : Decoder) (visit : Visit) : Decoder :=
  { dec with visits := dec.visits ++ [visit] }

/-- The pointer to the next object out of line is written. -/
def place (dec : Decoder) (mode : Mode) (pointer size next : Nat) : Decoder :=
  { (dec.assign mode pointer (littleEndian 8 (dec.base + dec.next))).visit
      (.object dec.next size) with next }

/-- `VisitPointer`, and what is done with the object. -/
def visitPointer (dec : Decoder) (cfg : Config) (pointee : PointeeType)
    (pointer size : Nat) (body : Nat → Decoder → Outcome) : Outcome :=
  if pointee ≠ .envelope ∧ word dec.memory pointer 8 ≠ allocPresent then
    .exit .invalidPresenceMarker dec
  else
    match addOutOfLine dec.next size with
    | none => .exit .outOfLineOverflow dec
    | some next =>
      if next > dec.size then .exit .outOfBytes dec
      else if size % 8 ≠ 0 ∧
          (load dec.memory (dec.next + size) (next - dec.next - size)).any (· ≠ 0) then
        .exit .nonZeroPadding dec
      else if pointee = .string ∧ cfg.isValidUtf8 (load dec.memory dec.next size) = false then
        .exit .invalidUtf8 dec
      else body dec.next (dec.place cfg.mode pointer size next)

/-- A handle, or what replaced it, is in its field. -/
def storeHandle (dec : Decoder) (pos : Nat) (handle : Handle) : Decoder :=
  { dec with
    memory := store dec.memory pos (littleEndian 4 handle.toNat)
    current := dec.current.set dec.index handle
    index := dec.index + 1 }

/-- What the check does with a handle that it refuses. -/
def refuseHandle (dec : Decoder) (pos : Nat) (handle : Handle) (cleared : Bool) :
    Decoder :=
  { dec with
    memory := store dec.memory pos (littleEndian 4 (if cleared then 0 else handle.toNat))
    closed := dec.closed ++ [handle] }

/-- `VisitHandle`. -/
def visitHandle (dec : Decoder) (cfg : Config) (pos : Nat)
    (attrs : HandleAttributes) : Outcome :=
  if word dec.memory pos 4 ≠ handlePresent then .exit .garbageHandle dec
  else if dec.index = dec.numHandles then .exit .tooManyHandles dec
  else
    match cfg.mode with
    | .validate =>
      .go { dec.visit (.handle attrs dec.index) with
        index := (dec.index + 1) % 2 ^ 32 }
    | .decode =>
      let handle := dec.handles.getD dec.index 0
      if handle = 0 then .exit .invalidHandle dec
      else
        let visited := dec.visit (.handle attrs dec.index)
        match cfg.processHandle attrs dec.index with
        | .unchanged => .go (visited.storeHandle pos handle)
        | .replaced successor => .go (visited.storeHandle pos successor)
        | .refused cleared => .exit .handleRefused (visited.refuseHandle pos handle cleared)

/-- `VisitInternalPadding`. -/
def visitInternalPadding (dec : Decoder) (pos : Nat) (mask : List UInt8) : Outcome :=
  if (List.zipWith (· &&& ·) (load dec.memory pos mask.length) mask).any (· ≠ 0) then
    .exit .nonZeroPadding dec
  else .go dec

/-- `LeaveInlinedEnvelope`, for an envelope that was entered in another state. -/
def leaveInlinedEnvelope (dec : Decoder) (envelope : EnvelopeCopy) (entered : Decoder) :
    Outcome :=
  if envelope.numHandles ≠ sub32 dec.index entered.index then .exit .envelopeNumHandles dec
  else .go dec

/-- `LeaveEnvelope`. -/
def leaveEnvelope (dec : Decoder) (envelope : EnvelopeCopy) (entered : Decoder) : Outcome :=
  if envelope.numBytes ≠ sub32 dec.next entered.next then .exit .envelopeNumBytes dec
  else dec.leaveInlinedEnvelope envelope entered

/-- `ConvertEnvelopeToDecodedRepresentation`, unless a `ZX_ASSERT` fails. -/
def convertEnvelope (dec : Decoder) (envelope : EnvelopeCopy) (pos : Nat) :
    Option Decoder :=
  let rest := littleEndian 2 envelope.numHandles ++ littleEndian 2 envelope.flags
  if envelope.flags % 2 ≠ 0 then
    some (dec.assign .decode pos (load dec.memory pos 4 ++ rest))
  else
    let off := word dec.memory pos 8 - dec.base
    if off > 2 ^ 16 - 1 ∨ envelope.numBytes > 2 ^ 16 - 1 then none
    else some (dec.assign .decode pos
      (littleEndian 2 envelope.numBytes ++ littleEndian 2 off ++ rest))

/-- The next incoming handles. -/
def incoming (dec : Decoder) (count : Nat) : List Handle :=
  (dec.handles.drop dec.index).take count

/-- The handles of an unknown envelope are left for the caller, or put into the
array of those to be closed. -/
def takeUnknown (dec : Decoder) (leave : Bool) (count : Nat) : Decoder :=
  if leave then
    { dec with
      left := dec.left ++ dec.incoming count
      index := dec.index + count }
  else
    { dec with
      unknown := dec.unknown ++ dec.incoming count
      index := dec.index + count }

/-- The handles of an unknown envelope that is decoded. -/
def unknownHandles (dec : Decoder) (leave : Bool) (count : Nat) : Outcome :=
  if count = 0 then .go dec
  else if dec.unknown.length + count ≥ 2 ^ 32 then .exit .unknownHandlesOverflow dec
  else if dec.unknown.length + count > maxMsgHandles then .exit .tooManyUnknownHandles dec
  else if dec.index + count ≥ 2 ^ 32 then .exit .incomingHandlesOverflow dec
  else if dec.index + count > dec.numHandles then .exit .tooFewIncomingHandles dec
  else .go (dec.takeUnknown leave count)

/-- `VisitUnknownEnvelope`. -/
def visitUnknownEnvelope (dec : Decoder) (cfg : Config) (envelope : EnvelopeCopy)
    (pos : Nat) (isResource : Bool) : Outcome :=
  let dec := dec.visit (.unknown envelope)
  match cfg.mode with
  | .validate => .go { dec with index := (dec.index + envelope.numHandles) % 2 ^ 32 }
  | .decode =>
    if cfg.hlcpp then
      match dec.convertEnvelope envelope pos with
      | none => .abort dec
      | some dec => dec.unknownHandles isResource envelope.numHandles
    else dec.unknownHandles false envelope.numHandles

end Decoder

/-! ## The walker -/

/-- `INCREASE_DEPTH` and `FIDL_DEPTH_GUARD`; the depth is a `uint8_t`. -/
def guardDepth (depth : Nat) (body : Nat → Decoder → Outcome) (dec : Decoder) : Outcome :=
  let inner := (depth + 1) % 2 ^ 8
  if inner > maxDepth then .exit .recursionDepthExceeded dec else body inner dec

def walkEach (walk : Nat → Decoder → Outcome) (stride : Nat) :
    (rounds pos : Nat) → Decoder → Outcome
  | 0, _, dec => .go dec
  | rounds + 1, pos, dec =>
    (walk pos dec).andThen (walkEach walk stride rounds (pos + stride))

/-- How often a loop over offsets runs. -/
def rounds (stride endOffset : Nat) : Nat := (endOffset + stride - 1) / stride

lemma rounds_mul (whole : stride ∣ endOffset) : rounds stride endOffset * stride = endOffset := by
  obtain ⟨_, rfl⟩ := whole
  unfold rounds
  rcases Nat.eq_zero_or_pos stride with rfl | positive
  · simp
  · rw [Nat.add_sub_assoc positive, Nat.mul_add_div positive,
      Nat.div_eq_of_lt (Nat.sub_lt positive Nat.one_pos), Nat.add_zero, Nat.mul_comm]

/-- `WalkIterableInternal`. -/
def walkIterable (needWalk : Bool) (walk : Nat → Decoder → Outcome) (stride endOffset : Nat)
    (pos : Nat) (dec : Decoder) : Outcome :=
  if needWalk then walkEach walk stride (rounds stride endOffset) pos dec
  else .go dec

/-- `WalkPrimitive`. -/
def walkPrimitive (subtype : PrimitiveSubtype) (pos : Nat) (dec : Decoder) : Outcome :=
  if subtype = .bool ∧ dec.memory pos ≠ 0 ∧ dec.memory pos ≠ 1 then
    .exit .invalidBool dec
  else .go dec

/-- `WalkEnum`. -/
def walkEnum (underlying : PrimitiveSubtype) (strict : Bool) (validate : UInt64 → Bool)
    (pos : Nat) (dec : Decoder) : Outcome :=
  if strict ∧ validate (underlying.read dec.memory pos) = false then
    .exit .invalidEnum dec
  else .go dec

/-- `WalkBits`. -/
def walkBits (underlying : PrimitiveSubtype) (strict : Bool) (mask : UInt64)
    (pos : Nat) (dec : Decoder) : Outcome :=
  if strict ∧ underlying.read dec.memory pos &&& ~~~mask ≠ 0 then
    .exit .invalidBits dec
  else .go dec

/-- `WalkStruct`, with the walk over its elements. -/
def walkStruct (isEmpty : Bool) (elements : Nat → Decoder → Outcome) (pos : Nat)
    (dec : Decoder) : Outcome :=
  if isEmpty ∧ dec.memory pos ≠ 0 then .exit .invalidEmptyStruct dec
  else elements pos dec

/-- A type that an envelope can hold. -/
structure Payload where
  size : Nat
  walk : (depth pos : Nat) → Decoder → Outcome

section

variable (cfg : Config)

/-- `WalkStructPointer`, with the walk over the struct. -/
def walkStructPointer (size : Nat) (walk : (depth pos : Nat) → Decoder → Outcome)
    (depth pos : Nat) (dec : Decoder) : Outcome :=
  if word dec.memory pos 8 = 0 then .go dec
  else
    guardDepth depth (fun depth dec =>
      dec.visitPointer cfg .other pos size (walk depth)) dec

/-- The rest of `WalkEnvelope` for an envelope that is not zero and holds a known
type. -/
def walkKnownEnvelope (payload : Payload) (depth pos : Nat) (envelope : EnvelopeCopy)
    (dec : Decoder) : Outcome :=
  if payload.size ≤ inliningSizeThreshold then
    if envelope.flags ≠ 1 then .exit .invalidInlineBit dec
    else
      guardDepth depth (fun depth entered =>
        ((entered.visitInternalPadding pos
          (List.replicate payload.size 0 ++ List.replicate (4 - payload.size) 255)).andThen
            (payload.walk depth pos)).andThen
              fun dec => dec.leaveInlinedEnvelope envelope entered) dec
  else if envelope.flags ≠ 0 then .exit .invalidInlineBit dec
  else
    guardDepth depth (fun depth entered =>
      entered.visitPointer cfg .envelope pos payload.size fun object dec =>
        (payload.walk depth object dec).andThen
          fun dec => dec.leaveEnvelope envelope entered) dec

/-- The rest of `WalkEnvelope` for an envelope that is not zero and has no
payload type. -/
def walkUnknownEnvelope (isResource : Bool) (depth pos : Nat) (envelope : EnvelopeCopy)
    (dec : Decoder) : Outcome :=
  if envelope.flags = 1 then
    guardDepth depth (fun _ entered =>
      (entered.visitUnknownEnvelope cfg envelope pos isResource).andThen
        fun dec => dec.leaveInlinedEnvelope envelope entered) dec
  else
    guardDepth depth (fun _ entered =>
      entered.visitPointer cfg .envelope pos envelope.numBytes fun _ dec =>
        (dec.visitUnknownEnvelope cfg envelope pos isResource).andThen
          fun dec => dec.leaveEnvelope envelope entered) dec

/-- `WalkEnvelope`. -/
def walkEnvelope (payload : Option Payload) (isResource : Bool) (depth pos : Nat)
    (dec : Decoder) : Outcome :=
  let envelope := EnvelopeCopy.read dec.memory pos
  if envelope.flags ≠ 1 ∧ envelope.flags ≠ 0 then .exit .invalidInlineMarker dec
  else if word dec.memory pos 8 = 0 then dec.leaveEnvelope envelope dec
  else
    match payload with
    | some payload => walkKnownEnvelope cfg payload depth pos envelope dec
    | none => walkUnknownEnvelope cfg isResource depth pos envelope dec

/-- The field of an ordinal, if it is the next one, and the fields after it. -/
def nextField {α : Type} (ordinal : Nat) : List (Nat × α) → Option α × List (Nat × α)
  | [] => (none, [])
  | (known, field) :: rest =>
    if known = ordinal then (some field, rest) else (none, (known, field) :: rest)

/-- The loop of `WalkTable`. -/
def walkEnvelopes (isResource : Bool) (depth : Nat) :
    (count ordinal : Nat) → (fields : List (Nat × Payload)) → (pos : Nat) → Decoder → Outcome
  | 0, _, _, _, dec => .go dec
  | count + 1, ordinal, fields, pos, dec =>
    (walkEnvelope cfg (nextField ordinal fields).1 isResource depth pos dec).andThen
      (walkEnvelopes isResource depth count (ordinal + 1) (nextField ordinal fields).2 (pos + 8))

/-- `WalkTable`. -/
def walkTable (isResource : Bool) (fields : List (Nat × Payload)) (depth pos : Nat)
    (dec : Decoder) : Outcome :=
  let count := word dec.memory pos 8
  if word dec.memory (pos + 8) 8 = 0 then
    if count ≠ 0 then .exit .absentTableWithCount dec
    else guardDepth depth (fun _ dec => .exit .absentPointer dec) dec
  else if count * 8 ≥ 2 ^ 32 then .exit .tableSizeOverflow dec
  else
    guardDepth depth (fun depth dec =>
      dec.visitPointer cfg .other (pos + 8) (count * 8)
        (walkEnvelopes cfg isResource depth count 1 fields)) dec

/-- `WalkXUnion`. -/
def walkXUnion (nullable strict isResource : Bool) (fields : List (Option Payload))
    (depth pos : Nat) (dec : Decoder) : Outcome :=
  let tag := word dec.memory pos 8
  let payload := fields[tag - 1]?.join
  if tag = 0 then
    if EnvelopeCopy.read dec.memory (pos + 8) ≠ ⟨0, 0, 0⟩ then
      .exit .zeroOrdinalNotEmpty dec
    else if !nullable then .exit .absentUnion dec
    else .go dec
  else if word dec.memory (pos + 8) 8 = 0 then .exit .emptyUnionWithOrdinal dec
  else if payload.isNone ∧ strict then .exit .unknownOrdinal dec
  else walkEnvelope cfg payload isResource depth (pos + 8) dec

/-- `WalkString`. -/
def walkString (nullable : Bool) (maxSize depth pos : Nat) (dec : Decoder) : Outcome :=
  let size := word dec.memory pos 8
  if word dec.memory (pos + 8) 8 = 0 then
    if size ≠ 0 then .exit .absentStringWithSize dec
    else if !nullable then guardDepth depth (fun _ dec => .exit .absentPointer dec) dec
    else .go dec
  else if size > 2 ^ 32 - 1 then .exit .stringSizeOverflow dec
  else if size > maxSize then .exit .stringTooLarge dec
  else
    guardDepth depth (fun _ dec =>
      dec.visitPointer cfg .string (pos + 8) size fun _ dec => .go dec) dec

/-- `WalkHandle`. -/
def walkHandle (nullable : Bool) (attrs : HandleAttributes) (pos : Nat)
    (dec : Decoder) : Outcome :=
  if word dec.memory pos 4 = 0 then
    if !nullable then .exit .missingHandle dec else .go dec
  else dec.visitHandle cfg pos attrs

/-- `WalkVector`. -/
def walkVector (nullable : Bool) (maxCount elementSize : Nat) (needWalk : Bool)
    (walk : (depth pos : Nat) → Decoder → Outcome) (depth pos : Nat)
    (dec : Decoder) : Outcome :=
  let count := word dec.memory pos 8
  if word dec.memory (pos + 8) 8 = 0 then
    if count ≠ 0 then .exit .absentVectorWithCount dec
    else if !nullable then guardDepth depth (fun _ dec => .exit .absentPointer dec) dec
    else .go dec
  else if count > maxCount then .exit .vectorTooLarge dec
  else if count * elementSize ≥ 2 ^ 32 then .exit .vectorSizeOverflow dec
  else
    guardDepth depth (fun depth dec =>
      dec.visitPointer cfg .vector (pos + 8) (count * elementSize)
        (walkIterable needWalk (walk depth) elementSize (count * elementSize))) dec

mutual

/-- `WalkInternal`. -/
def CodedType.walk : CodedType → (depth pos : Nat) → Decoder → Outcome
  | .primitive subtype, _, pos, dec => walkPrimitive subtype pos dec
  | .enum underlying strict validate, _, pos, dec =>
    walkEnum underlying strict validate pos dec
  | .bits underlying strict mask, _, pos, dec =>
    walkBits underlying strict mask pos dec
  | .struct isEmpty _ elements, depth, pos, dec =>
    walkStruct isEmpty (Elements.walk elements depth) pos dec
  | .structPointer isEmpty size elements, depth, pos, dec =>
    walkStructPointer cfg size (fun depth => walkStruct isEmpty (Elements.walk elements depth))
      depth pos dec
  | .table isResource fields, depth, pos, dec =>
    walkTable cfg isResource (TableFields.payloads fields) depth pos dec
  | .xunion nullable strict isResource fields, depth, pos, dec =>
    walkXUnion cfg nullable strict isResource (UnionFields.payloads fields) depth pos
      dec
  | .array elementSize arraySize element, depth, pos, dec =>
    walkIterable element.needWalk (CodedType.walk element depth) elementSize arraySize pos
      dec
  | .string nullable maxSize, depth, pos, dec =>
    walkString cfg nullable maxSize depth pos dec
  | .handle nullable attrs, _, pos, dec =>
    walkHandle cfg nullable attrs pos dec
  | .vector nullable maxCount elementSize element, depth, pos, dec =>
    walkVector cfg nullable maxCount elementSize element.needWalk
      (fun depth => CodedType.walk element depth) depth pos dec

/-- The loop of `WalkStruct`. -/
def Elements.walk : Elements → (depth pos : Nat) → Decoder → Outcome
  | .nil, _, _, dec => .go dec
  | .field off ty rest, depth, pos, dec =>
    (CodedType.walk ty depth (pos + off) dec).andThen
      (Elements.walk rest depth pos)
  | .padding padding rest, depth, pos, dec =>
    (dec.visitInternalPadding (pos + padding.offset) padding.mask).andThen
      (Elements.walk rest depth pos)

def TableFields.payloads : TableFields → List (Nat × Payload)
  | .nil => []
  | .field ordinal ty rest =>
    (ordinal, ⟨ty.typeSize, fun depth => CodedType.walk ty depth⟩) :: TableFields.payloads rest

def UnionFields.payloads : UnionFields → List (Option Payload)
  | .nil => []
  | .reserved rest => none :: UnionFields.payloads rest
  | .field ty rest =>
    some ⟨ty.typeSize, fun depth => CodedType.walk ty depth⟩ :: UnionFields.payloads rest

end

end

/-! ## Decoding and validating -/

/-- What was received. -/
structure Message where
  /-- The address of the bytes; null is 0. -/
  base : Nat
  size : Nat
  memory : Memory
  handles : List Handle

def Message.decoder (msg : Message) (next : Nat) : Decoder where
  base := msg.base
  size := msg.size
  memory := msg.memory
  handles := msg.handles
  numHandles := msg.handles.length
  next := next
  current := msg.handles

/-- `PrimaryObjectSize`: the size of the primary object and the first offset out
of line. -/
def primaryObjectSize (ty : CodedType) (bufferSize : Nat) : Except DecodeError (Nat × Nat) :=
  let sized (primary : Nat) : Except DecodeError (Nat × Nat) :=
    if align primary > bufferSize then .error .bufferTooSmall
    else if align primary > 2 ^ 32 - 1 then .error .firstOutOfLineOverflow
    else .ok (primary, align primary)
  match ty with
  | .struct _ size _ => sized size
  | .table _ _ => sized 16
  | .xunion _ _ _ _ => sized 16
  | _ => .error .notStructTableOrUnion

/-- `FidlHandleCloseMany`. -/
def Decoder.closeMany (dec : Decoder) (handles : List Handle) : Decoder :=
  { dec with closed := dec.closed ++ close handles }

/-- An error of `fidl_decode_impl`, which closes what is in the handle array. -/
def fail (error : DecodeError) (dec : Decoder) : Outcome :=
  .exit error (dec.closeMany dec.handles)

/-- What `fidl_decode_impl` does after the walk. -/
def finish : Outcome → Outcome
  | .abort dec => .abort dec
  | .exit error dec => fail error dec
  | .go dec =>
    if dec.next ≠ dec.size then fail .bytesLeft dec
    else if dec.index ≠ dec.numHandles then fail .handlesLeft dec
    else .go (dec.closeMany dec.unknown)

/-- `fidl_decode_impl`. -/
def fidlDecodeImpl (cfg : Config) (ty : CodedType) (msg : Message) : Outcome :=
  if msg.base = 0 then fail .nullBytes (msg.decoder 0)
  else if msg.base % 8 ≠ 0 then fail .misalignedBytes (msg.decoder 0)
  else
    match primaryObjectSize ty msg.size with
    | .error error => fail error (msg.decoder 0)
    | .ok (primary, next) =>
      if (load msg.memory primary (next - primary)).any (· ≠ 0) then
        fail .nonZeroPadding (msg.decoder 0)
      else
        finish (CodedType.walk { cfg with mode := .decode } ty 0 0 (msg.decoder next))

/-- `fidl_decode_impl_handle_info`, which copies the handles and what is known of them to the
stack. With more handles than there is room for it writes outside its arrays, and nothing is
known of what follows. -/
def fidlDecodeImplHandleInfo (cfg : Config) (ty : CodedType) (msg : Message) :
    Option Outcome :=
  if msg.handles.length > maxMsgHandles then none else some (fidlDecodeImpl cfg ty msg)

/-- `internal__fidl_decode_etc_hlcpp__v2__may_break`. -/
def internalFidlDecodeEtcHlcppV2MayBreak (cfg : Config) (ty : CodedType) (msg : Message) :
    Option Outcome :=
  fidlDecodeImplHandleInfo { cfg with hlcpp := true } ty msg

/-- `fidl_validate_impl`, which is given the number of handles only. -/
def fidlValidateImpl (cfg : Config) (ty : CodedType) (msg : Message) (numHandles : Nat) :
    Outcome :=
  let start (next : Nat) : Decoder :=
    { msg.decoder next with handles := [], numHandles, current := [] }
  if msg.base = 0 then .exit .nullBytes (start 0)
  else if msg.base % 8 ≠ 0 then .exit .misalignedBytes (start 0)
  else
    match primaryObjectSize ty msg.size with
    | .error error => .exit error (start 0)
    | .ok (primary, next) =>
      if (load msg.memory primary (next - primary)).any (· ≠ 0) then
        .exit .nonZeroPadding (start 0)
      else
        (CodedType.walk { cfg with mode := .validate, hlcpp := false } ty 0 0
          (start next)).andThen fun dec =>
            if dec.next ≠ dec.size then .exit .bytesLeft dec
            else if dec.index ≠ dec.numHandles then .exit .handlesLeft dec
            else .go dec

/-- What both calls check before the walk. -/
structure Begins (ty : CodedType) (msg : Message) (primary next : Nat) : Prop where
  present : msg.base ≠ 0
  sized : primaryObjectSize ty msg.size = .ok (primary, next)
  clean : (load msg.memory primary (next - primary)).any (· ≠ 0) = false

/-- Both calls report an error before the walk, or both begin it. -/
lemma entry_cases (msg : Message) (numHandles : Nat) :
    (∃ error, ∀ cfg, fidlDecodeImpl cfg ty msg = fail error (msg.decoder 0) ∧
      fidlValidateImpl cfg ty msg numHandles =
        .exit error { msg.decoder 0 with handles := [], numHandles, current := [] }) ∨
    ∃ primary next, Begins ty msg primary next ∧ ∀ cfg,
      fidlDecodeImpl cfg ty msg =
        finish (CodedType.walk { cfg with mode := .decode } ty 0 0 (msg.decoder next)) ∧
      fidlValidateImpl cfg ty msg numHandles =
        (CodedType.walk { cfg with mode := .validate, hlcpp := false } ty 0 0
          { msg.decoder next with handles := [], numHandles, current := [] }).andThen
            fun dec =>
              if dec.next ≠ dec.size then .exit .bytesLeft dec
              else if dec.index ≠ dec.numHandles then .exit .handlesLeft dec
              else .go dec := by
  unfold fidlDecodeImpl fidlValidateImpl
  split
  · exact .inl ⟨_, fun _ => ⟨rfl, rfl⟩⟩
  rename_i present
  split
  · exact .inl ⟨_, fun _ => ⟨rfl, rfl⟩⟩
  cases sized : primaryObjectSize ty msg.size with
  | error error => exact .inl ⟨_, fun _ => ⟨rfl, rfl⟩⟩
  | ok =>
    dsimp only
    split
    · exact .inl ⟨_, fun _ => ⟨rfl, rfl⟩⟩
    next clean =>
      exact .inr ⟨_, _, ⟨present, sized, Bool.eq_false_iff.mpr clean⟩, fun _ => ⟨rfl, rfl⟩⟩

/-! ## Calls that go on -/

section

variable {cfg : Config} {dec after entered : Decoder} {envelope : EnvelopeCopy}

lemma Outcome.andThen_eq_go {outcome : Outcome} : outcome.andThen body = .go after ↔
      ∃ middle, outcome = .go middle ∧ body middle = .go after := by
  cases outcome <;> simp [Outcome.andThen]

/-- What `VisitPointer` checks of an object out of line. -/
structure Fits (dec : Decoder) (cfg : Config) (pointee : PointeeType)
    (pointer size next : Nat) : Prop where
  marked : pointee = .envelope ∨ word dec.memory pointer 8 = allocPresent
  added : addOutOfLine dec.next size = some next
  inside : next ≤ dec.size
  padded : size % 8 ≠ 0 →
    (load dec.memory (dec.next + size) (next - dec.next - size)).any (· ≠ 0) = false
  valid : pointee = .string → cfg.isValidUtf8 (load dec.memory dec.next size) = true

lemma addOutOfLine_eq_align (added : addOutOfLine off size = some next) :
    next = align (off + size) := by
  unfold addOutOfLine at added
  split at added
  · cases added
  split at added
  · cases added
  · exact (Option.some.inj added).symm

/-- `VisitPointer` goes on to an object that fits, or reports an error. -/
lemma visitPointer_cases : (∃ next, Fits dec cfg pointee ptr size next ∧
      ∀ body, dec.visitPointer cfg pointee ptr size body =
        body dec.next (dec.place cfg.mode ptr size next)) ∨
    ((∀ next, ¬Fits dec cfg pointee ptr size next) ∧
      ∃ error, ∀ body, dec.visitPointer cfg pointee ptr size body = .exit error dec) := by
  by_cases marked : pointee ≠ .envelope ∧ word dec.memory ptr 8 ≠ allocPresent
  · refine .inr ⟨fun next fits => fits.marked.elim marked.1 marked.2, .invalidPresenceMarker,
      fun body => ?_⟩
    rw [Decoder.visitPointer, if_pos marked]
  · cases added : addOutOfLine dec.next size with
    | none =>
      refine .inr ⟨fun next fits => ?_, .outOfLineOverflow, fun body => ?_⟩
      · have found := fits.added
        rw [added] at found
        cases found
      · rw [Decoder.visitPointer, if_neg marked, added]
    | some next =>
      have only : ∀ next', Fits dec cfg pointee ptr size next' → next' = next :=
        fun next' fits => Option.some.inj (fits.added.symm.trans added)
      by_cases inside : next > dec.size
      · refine .inr ⟨fun next' fits => ?_, .outOfBytes, fun body => ?_⟩
        · cases only next' fits
          exact absurd fits.inside (Nat.not_le.mpr inside)
        · rw [Decoder.visitPointer, if_neg marked, added]
          exact if_pos inside
      · by_cases padded : size % 8 ≠ 0 ∧
          (load dec.memory (dec.next + size) (next - dec.next - size)).any (· ≠ 0)
        · refine .inr ⟨fun next' fits => ?_, .nonZeroPadding, fun body => ?_⟩
          · cases only next' fits
            rw [fits.padded padded.1] at padded
            cases padded.2
          · rw [Decoder.visitPointer, if_neg marked, added]
            exact (if_neg inside).trans (if_pos padded)
        · by_cases valid : pointee = .string ∧
            cfg.isValidUtf8 (load dec.memory dec.next size) = false
          · refine .inr ⟨fun next' fits => ?_, .invalidUtf8, fun body => ?_⟩
            · rw [fits.valid valid.1] at valid
              cases valid.2
            · rw [Decoder.visitPointer, if_neg marked, added]
              exact ((if_neg inside).trans (if_neg padded)).trans (if_pos valid)
          · refine .inl ⟨next, ⟨?_, added, Nat.not_lt.mp inside, ?_, ?_⟩, fun body => ?_⟩
            · by_cases isEnvelope : pointee = .envelope
              · exact .inl isEnvelope
              · exact .inr (by_contra fun absent => marked ⟨isEnvelope, absent⟩)
            · exact fun uneven => Bool.eq_false_iff.mpr fun found => padded ⟨uneven, found⟩
            · exact fun isString => Bool.not_eq_false _ ▸ fun bad => valid ⟨isString, bad⟩
            · rw [Decoder.visitPointer, if_neg marked, added]
              exact ((if_neg inside).trans (if_neg padded)).trans (if_neg valid)

lemma visitPointer_eq_go : dec.visitPointer cfg pointee ptr size body = .go after ↔
      ∃ next, Fits dec cfg pointee ptr size next ∧
        body dec.next (dec.place cfg.mode ptr size next) = .go after := by
  rcases visitPointer_cases with
    ⟨next, fits, goes⟩ | ⟨unfit, _, fails⟩
  · rw [goes body]
    refine ⟨fun gone => ⟨next, fits, gone⟩, fun ⟨next', fits', gone⟩ => ?_⟩
    cases Option.some.inj (fits.added.symm.trans fits'.added)
    exact gone
  · rw [fails body]
    exact ⟨nofun, fun ⟨next, fits, _⟩ => absurd fits (unfit next)⟩

lemma guardDepth_eq_go : guardDepth depth body dec = .go after ↔
      (depth + 1) % 2 ^ 8 ≤ maxDepth ∧ body ((depth + 1) % 2 ^ 8) dec = .go after := by
  unfold guardDepth
  simp only
  split
  next deep => exact ⟨nofun, fun within => absurd within.1 (Nat.not_le.mpr deep)⟩
  next within => exact ⟨fun gone => ⟨Nat.not_lt.mp within, gone⟩, And.right⟩

lemma visitInternalPadding_eq_go : dec.visitInternalPadding pos mask = .go after ↔
      (List.zipWith (· &&& ·) (load dec.memory pos mask.length) mask).any (· ≠ 0) = false ∧
        dec = after := by
  unfold Decoder.visitInternalPadding
  split
  next wrong => exact ⟨nofun, fun right => by rw [right.1] at wrong; cases wrong⟩
  next right =>
    rw [Outcome.go.injEq]
    exact ⟨fun same => ⟨Bool.eq_false_iff.mpr right, same⟩, And.right⟩

lemma leaveInlinedEnvelope_eq_go : dec.leaveInlinedEnvelope envelope entered = .go after ↔
      envelope.numHandles = sub32 dec.index entered.index ∧ dec = after := by
  unfold Decoder.leaveInlinedEnvelope
  split
  next wrong => exact ⟨nofun, fun right => absurd right.1 wrong⟩
  next right =>
    rw [Outcome.go.injEq]
    exact ⟨fun same => ⟨not_not.mp right, same⟩, And.right⟩

lemma leaveEnvelope_eq_go : dec.leaveEnvelope envelope entered = .go after ↔
      envelope.numBytes = sub32 dec.next entered.next ∧
        envelope.numHandles = sub32 dec.index entered.index ∧ dec = after := by
  unfold Decoder.leaveEnvelope
  split
  next wrong => exact ⟨nofun, fun right => absurd right.1 wrong⟩
  next right =>
    rw [leaveInlinedEnvelope_eq_go]
    exact ⟨fun rest => ⟨not_not.mp right, rest⟩, And.right⟩

lemma le_addOutOfLine (added : addOutOfLine off size = some next) : off + size ≤ next := by
  unfold addOutOfLine at added
  split at added
  · cases added
  · split at added <;> cases added
    exact le_align _

end

/-! ## Fields that are related -/

section

variable {α β : Type} {relation : α → β → Prop}

/-- Fields of the same ordinals whose types are related. -/
abbrev RelFields (relation : α → β → Prop) : List (Nat × α) → List (Nat × β) → Prop :=
  List.Forall₂ fun left right => left.1 = right.1 ∧ relation left.2 right.2

lemma nextField_rel (related : RelFields relation left right) :
    Option.Rel relation (nextField ordinal left).1 (nextField ordinal right).1 ∧
      RelFields relation (nextField ordinal left).2 (nextField ordinal right).2 := by
  cases related with
  | nil => exact ⟨.none, .nil⟩
  | cons head tail =>
    obtain ⟨same, here⟩ := head
    simp only [nextField, ← same]
    split
    · exact ⟨.some here, tail⟩
    · exact ⟨.none, .cons ⟨rfl, here⟩ tail⟩

lemma join_rel (related : List.Forall₂ (Option.Rel relation) left right) (index : Nat) :
    Option.Rel relation left[index]?.join right[index]?.join := by
  induction related generalizing index with
  | nil => exact .none
  | cons head _ ih =>
    cases index with
    | zero => exact head
    | succ index => exact ih index

lemma isNone_of_rel (related : Option.Rel relation left right) : right.isNone = left.isNone := by
  cases related <;> rfl

end

/-! ## Walks in lockstep -/

/-- `VisitUnknownEnvelope` is called for an inlined envelope, or behind the pointer of the
envelope. -/
def Entered (cfg : Config) (dec : Decoder) (envelope : EnvelopeCopy) (pos : Nat) : Prop :=
  envelope.flags = 1 ∨ ∃ entered next, Fits entered cfg .envelope pos envelope.numBytes next ∧
    dec = entered.place cfg.mode pos envelope.numBytes next

/-- A relation between a state and what two walks from it end with, which the
methods of the visitor respect. With one walk twice it is about that walk. -/
structure Lockstep (first second : Config)
    (relation : Decoder → Outcome → Outcome → Prop) : Prop where
  mode : second.mode = first.mode
  utf8 : second.isValidUtf8 = first.isValidUtf8
  go : ∀ dec, relation dec (.go dec) (.go dec)
  exit : ∀ error dec, relation dec (.exit error dec) (.exit error dec)
  andThen : ∀ {dec left right body body'}, relation dec left right →
    (∀ dec, relation dec (body dec) (body' dec)) →
    relation dec (left.andThen body) (right.andThen body')
  place : ∀ {dec pointee pointer size next}, Fits dec first pointee pointer size next →
    relation dec (.go (dec.place first.mode pointer size next))
      (.go (dec.place first.mode pointer size next))
  handle : ∀ dec pos attrs,
    relation dec (dec.visitHandle first pos attrs)
      (dec.visitHandle second pos attrs)
  unknown : ∀ dec envelope pos isResource, Entered first dec envelope pos →
    relation dec (dec.visitUnknownEnvelope first envelope pos isResource)
      (dec.visitUnknownEnvelope second envelope pos isResource)

namespace Lockstep

variable {first second : Config} {relation : Decoder → Outcome → Outcome → Prop}
  {dec : Decoder} {isEmpty needWalk nullable strict isResource : Bool}

section

variable (lockstep : Lockstep first second relation)
include lockstep

lemma visitPlaced (inside : ∀ next placed, Fits dec first pointee ptr size next →
      placed = dec.place first.mode ptr size next →
      relation placed (body dec.next placed) (body' dec.next placed)) :
    relation dec (dec.visitPointer first pointee ptr size body)
      (dec.visitPointer second pointee ptr size body') := by
  have same : dec.visitPointer second pointee ptr size body' =
      dec.visitPointer first pointee ptr size body' := by
    unfold Decoder.visitPointer
    rw [lockstep.mode, lockstep.utf8]
  rw [same]
  rcases visitPointer_cases with
    ⟨next, fits, goes⟩ | ⟨_, _, fails⟩
  · rw [goes body, goes body']
    -- Nothing has to be known of other states.
    classical
    have both := lockstep.andThen (lockstep.place fits) fun st =>
      show relation st
        (if st = dec.place first.mode ptr size next then body dec.next st
          else .go st)
        (if st = dec.place first.mode ptr size next then body' dec.next st
          else .go st) by
      split
      · exact inside next st fits ‹_›
      · exact lockstep.go st
    simpa only [Outcome.andThen, if_true] using both
  · rw [fails body, fails body']
    exact lockstep.exit ..

lemma visitPointer
    (inside : ∀ object dec, relation dec (body object dec) (body' object dec)) :
    relation dec (dec.visitPointer first pointee ptr size body)
      (dec.visitPointer second pointee ptr size body') :=
  lockstep.visitPlaced fun _ placed _ _ => inside dec.next placed

lemma visitInternalPadding (mask : List UInt8) : relation dec (dec.visitInternalPadding pos mask)
      (dec.visitInternalPadding pos mask) := by
  unfold Decoder.visitInternalPadding
  split
  · exact lockstep.exit ..
  · exact lockstep.go dec

lemma leaveInlinedEnvelope (envelope : EnvelopeCopy) (entered : Decoder) :
    relation dec (dec.leaveInlinedEnvelope envelope entered)
      (dec.leaveInlinedEnvelope envelope entered) := by
  unfold Decoder.leaveInlinedEnvelope
  split
  · exact lockstep.exit ..
  · exact lockstep.go dec

lemma leaveEnvelope (envelope : EnvelopeCopy) (entered : Decoder) :
    relation dec (dec.leaveEnvelope envelope entered) (dec.leaveEnvelope envelope entered) := by
  unfold Decoder.leaveEnvelope
  split
  · exact lockstep.exit ..
  · exact lockstep.leaveInlinedEnvelope ..

lemma guardDepth (inside : ∀ depth, relation dec (body depth dec) (body' depth dec)) :
    relation dec (CodedDecoder.guardDepth depth body dec)
      (CodedDecoder.guardDepth depth body' dec) := by
  unfold CodedDecoder.guardDepth
  simp only
  split
  · exact lockstep.exit ..
  · exact inside _

lemma each (one : ∀ pos dec, relation dec (walk pos dec) (walk' pos dec))
    (stride rounds pos : Nat) (dec : Decoder) : relation dec (walkEach walk stride rounds pos dec)
      (walkEach walk' stride rounds pos dec) := by
  induction rounds generalizing pos dec with
  | zero => exact lockstep.go dec
  | succ rounds ih => exact lockstep.andThen (one pos dec) (ih (pos + stride))

lemma iterable (one : ∀ pos dec, relation dec (walk pos dec) (walk' pos dec)) :
    relation dec (walkIterable needWalk walk stride endOffset pos dec)
      (walkIterable needWalk walk' stride endOffset pos dec) := by
  unfold walkIterable
  split
  · exact lockstep.each one ..
  · exact lockstep.go dec

lemma struct (all : ∀ pos dec, relation dec (elements pos dec) (elements' pos dec)) :
    relation dec (walkStruct isEmpty elements pos dec)
      (walkStruct isEmpty elements' pos dec) := by
  unfold walkStruct
  split
  · exact lockstep.exit ..
  · exact all ..

lemma structPointer (one : ∀ depth pos dec,
      relation dec (walk depth pos dec) (walk' depth pos dec)) :
    relation dec (walkStructPointer first size walk depth pos dec)
      (walkStructPointer second size walk' depth pos dec) := by
  unfold walkStructPointer
  split
  · exact lockstep.go dec
  · exact lockstep.guardDepth fun depth => lockstep.visitPointer (one depth)

end

/-- Payload types that are walked in lockstep. -/
structure Alike (relation : Decoder → Outcome → Outcome → Prop) (payload payload' : Payload) :
    Prop where
  size : payload'.size = payload.size
  walk : ∀ depth pos dec, relation dec (payload.walk depth pos dec) (payload'.walk depth pos dec)

lemma knownEnvelope (lockstep : Lockstep first second relation)
    (alike : Alike relation payload payload') (envelope : EnvelopeCopy) :
    relation dec (walkKnownEnvelope first payload depth pos envelope dec)
      (walkKnownEnvelope second payload' depth pos envelope dec) := by
  unfold walkKnownEnvelope
  rw [alike.size]
  split
  · split
    · exact lockstep.exit ..
    refine lockstep.guardDepth fun depth => lockstep.andThen (lockstep.andThen ?_ ?_) ?_
    · exact lockstep.visitInternalPadding ..
    · exact alike.walk depth pos
    · exact fun dec => lockstep.leaveInlinedEnvelope ..
  · split
    · exact lockstep.exit ..
    refine lockstep.guardDepth fun depth => lockstep.visitPointer fun object dec => ?_
    exact lockstep.andThen (alike.walk depth object dec)
      fun dec => lockstep.leaveEnvelope ..

lemma unknownEnvelope (lockstep : Lockstep first second relation) (envelope : EnvelopeCopy) :
    relation dec (walkUnknownEnvelope first isResource depth pos envelope dec)
      (walkUnknownEnvelope second isResource depth pos envelope dec) := by
  unfold walkUnknownEnvelope
  split
  next inlined =>
    refine lockstep.guardDepth fun depth => lockstep.andThen
      (lockstep.unknown _ _ _ _ (.inl inlined)) fun dec => ?_
    exact lockstep.leaveInlinedEnvelope ..
  · refine lockstep.guardDepth fun depth => lockstep.visitPlaced fun next placed fits same => ?_
    exact lockstep.andThen (lockstep.unknown _ _ _ _ (.inr ⟨_, next, fits, same⟩))
      fun dec => lockstep.leaveEnvelope ..

lemma envelope (lockstep : Lockstep first second relation)
    (alike : Option.Rel (Alike relation) payload payload') :
    relation dec (walkEnvelope first payload isResource depth pos dec)
      (walkEnvelope second payload' isResource depth pos dec) := by
  unfold walkEnvelope
  simp only
  split
  · exact lockstep.exit ..
  split
  · exact lockstep.leaveEnvelope ..
  cases alike with
  | none => exact lockstep.unknownEnvelope _
  | some alike => exact lockstep.knownEnvelope alike _

/-- Lists of fields that are walked in lockstep. -/
abbrev AlikeFields (relation : Decoder → Outcome → Outcome → Prop) :
    List (Nat × Payload) → List (Nat × Payload) → Prop :=
  RelFields (Alike relation)

section

variable (lockstep : Lockstep first second relation)
include lockstep

lemma envelopes (count ordinal pos : Nat) (alike : AlikeFields relation fields fields') (dec : Decoder) :
    relation dec (walkEnvelopes first isResource depth count ordinal fields pos dec)
      (walkEnvelopes second isResource depth count ordinal fields' pos dec) := by
  induction count generalizing ordinal fields fields' pos dec with
  | zero => exact lockstep.go dec
  | succ count ih =>
    obtain ⟨field, rest⟩ := nextField_rel alike
    exact lockstep.andThen (lockstep.envelope field) (ih (ordinal + 1) (pos + 8) rest)

lemma table (alike : AlikeFields relation fields fields') :
    relation dec (walkTable first isResource fields depth pos dec)
      (walkTable second isResource fields' depth pos dec) := by
  unfold walkTable
  simp only
  split
  · split
    · exact lockstep.exit ..
    · exact lockstep.guardDepth fun _ => lockstep.exit ..
  · split
    · exact lockstep.exit ..
    · exact lockstep.guardDepth fun depth => lockstep.visitPointer fun object dec =>
        lockstep.envelopes _ 1 object alike dec

lemma xunion (alike : List.Forall₂ (Option.Rel (Alike relation)) fields fields') :
    relation dec (walkXUnion first nullable strict isResource fields depth pos dec)
      (walkXUnion second nullable strict isResource fields' depth pos dec) := by
  have found := join_rel alike (word dec.memory pos 8 - 1)
  unfold walkXUnion
  simp only [isNone_of_rel found]
  split
  · split
    · exact lockstep.exit ..
    split
    · exact lockstep.exit ..
    · exact lockstep.go dec
  · split
    · exact lockstep.exit ..
    split
    · exact lockstep.exit ..
    · exact lockstep.envelope found

lemma string : relation dec (walkString first nullable maxSize depth pos dec)
      (walkString second nullable maxSize depth pos dec) := by
  unfold walkString
  simp only
  split
  · split
    · exact lockstep.exit ..
    split
    · exact lockstep.guardDepth fun _ => lockstep.exit ..
    · exact lockstep.go dec
  · split
    · exact lockstep.exit ..
    split
    · exact lockstep.exit ..
    · exact lockstep.guardDepth fun depth => lockstep.visitPointer fun _ => lockstep.go

lemma walkHandle (attrs : HandleAttributes) :
    relation dec (CodedDecoder.walkHandle first nullable attrs pos dec)
      (CodedDecoder.walkHandle second nullable attrs pos dec) := by
  unfold CodedDecoder.walkHandle
  split
  · split
    · exact lockstep.exit ..
    · exact lockstep.go dec
  · exact lockstep.handle ..

lemma vector (one : ∀ depth pos dec,
      relation dec (walk depth pos dec) (walk' depth pos dec)) : relation dec
      (walkVector first nullable maxCount elementSize needWalk walk depth pos dec)
      (walkVector second nullable maxCount elementSize needWalk walk' depth pos dec) := by
  unfold walkVector
  simp only
  split
  · split
    · exact lockstep.exit ..
    split
    · exact lockstep.guardDepth fun _ => lockstep.exit ..
    · exact lockstep.go dec
  · split
    · exact lockstep.exit ..
    split
    · exact lockstep.exit ..
    · exact lockstep.guardDepth fun depth => lockstep.visitPointer fun _ _ =>
        lockstep.iterable (one depth)

lemma primitive (subtype : PrimitiveSubtype) : relation dec (walkPrimitive subtype pos dec)
      (walkPrimitive subtype pos dec) := by
  unfold walkPrimitive
  split
  · exact lockstep.exit ..
  · exact lockstep.go dec

lemma enum (underlying : PrimitiveSubtype) (validate : UInt64 → Bool) :
    relation dec (walkEnum underlying strict validate pos dec)
      (walkEnum underlying strict validate pos dec) := by
  unfold walkEnum
  split
  · exact lockstep.exit ..
  · exact lockstep.go dec

lemma bits (underlying : PrimitiveSubtype) (mask : UInt64) :
    relation dec (walkBits underlying strict mask pos dec)
      (walkBits underlying strict mask pos dec) := by
  unfold walkBits
  split
  · exact lockstep.exit ..
  · exact lockstep.go dec

end

mutual

lemma walk (lockstep : Lockstep first second relation) :
    (ty : CodedType) → (depth pos : Nat) → (dec : Decoder) →
      relation dec (CodedType.walk first ty depth pos dec)
        (CodedType.walk second ty depth pos dec)
  | .primitive subtype, _, _, _ => lockstep.primitive subtype
  | .enum underlying _ validate, _, _, _ => lockstep.enum underlying validate
  | .bits underlying _ mask, _, _, _ => lockstep.bits underlying mask
  | .struct _ _ elements, depth, _, _ => lockstep.struct (walkElements lockstep elements depth)
  | .structPointer _ _ elements, _, _, _ =>
    lockstep.structPointer fun depth _ _ => lockstep.struct (walkElements lockstep elements depth)
  | .table _ fields, _, _, _ => lockstep.table (walkTableFields lockstep fields)
  | .xunion _ _ _ fields, _, _, _ => lockstep.xunion (walkUnionFields lockstep fields)
  | .array _ _ element, depth, _, _ => lockstep.iterable (walk lockstep element depth)
  | .string _ _, _, _, _ => lockstep.string
  | .handle _ attrs, _, _, _ => lockstep.walkHandle attrs
  | .vector _ _ _ element, _, _, _ => lockstep.vector fun depth => walk lockstep element depth

lemma walkElements (lockstep : Lockstep first second relation) :
    (elements : Elements) → (depth pos : Nat) → (dec : Decoder) →
      relation dec (Elements.walk first elements depth pos dec)
        (Elements.walk second elements depth pos dec)
  | .nil, _, _, dec => lockstep.go dec
  | .field _ ty rest, depth, pos, dec =>
    lockstep.andThen (walk lockstep ty depth _ dec)
      (walkElements lockstep rest depth pos)
  | .padding padding rest, depth, pos, _ =>
    lockstep.andThen (lockstep.visitInternalPadding padding.mask)
      (walkElements lockstep rest depth pos)

lemma walkTableFields (lockstep : Lockstep first second relation) :
    (fields : TableFields) → AlikeFields relation (TableFields.payloads first fields)
      (TableFields.payloads second fields)
  | .nil => .nil
  | .field _ ty rest =>
    .cons ⟨rfl, rfl, fun depth => walk lockstep ty depth⟩ (walkTableFields lockstep rest)

lemma walkUnionFields (lockstep : Lockstep first second relation) :
    (fields : UnionFields) → List.Forall₂ (Option.Rel (Alike relation))
      (UnionFields.payloads first fields) (UnionFields.payloads second fields)
  | .nil => .nil
  | .reserved rest => .cons .none (walkUnionFields lockstep rest)
  | .field ty rest =>
    .cons (.some ⟨rfl, fun depth => walk lockstep ty depth⟩) (walkUnionFields lockstep rest)

end

end Lockstep

end FuchsiaSdk.CodedDecoder
