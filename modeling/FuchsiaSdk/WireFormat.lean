import FuchsiaSdk.Memory

/-! The types that the wire coding traits are built from, their values, and the
FIDL wire format: the bytes and handles that a value stands for. The format is
said without positions or buffers; the encoder and the decoder are compared
with it. -/
namespace FuchsiaSdk.WireFormat
open Memory

abbrev Handle : Type := UInt32

/-- What is closed with some handles: `zx_handle_close` ignores `ZX_HANDLE_INVALID`. -/
def close (handles : List Handle) : List Handle := handles.filter (· ≠ 0)

/-- `HandleAttributes`. -/
structure HandleAttributes where
  objType : UInt32
  rights : UInt32
  deriving DecidableEq, Repr

/-- What the type and rights check of an incoming handle ends with. -/
inductive HandleCheck where
  | unchanged
  /-- `zx_handle_replace` gave this handle for it. -/
  | replaced (successor : Handle)
  /-- It was closed; its slot is cleared, unless `zx_handle_replace` has failed. -/
  | refused (cleared : Bool)
  deriving DecidableEq, Repr

def HandleCheck.Passes (check : HandleCheck) : Prop := ∀ cleared, check ≠ .refused cleared

/-- What replaces a handle is one. -/
abbrev Fresh (processHandle : HandleAttributes → Nat → HandleCheck) : Prop :=
  ∀ attrs i successor, processHandle attrs i = .replaced successor → successor ≠ 0

/-- `ZX_OBJ_TYPE_NONE`. -/
def objTypeNone : UInt32 := 0

/-- `ZX_RIGHT_SAME_RIGHTS`. -/
def rightSameRights : UInt32 := 0x80000000

/-- `subtract_rights`. -/
def subtractRights (minuend subtrahend : UInt32) : UInt32 := minuend &&& ~~~subtrahend

/-- `FidlEnsureHandleRights`. `zx_handle_replace` gives a handle or fails, and closes its argument
either way. -/
def ensureHandleRights (actual required : HandleAttributes) (successor : Option Handle) :
    HandleCheck :=
  if required.objType ≠ actual.objType ∧ required.objType ≠ objTypeNone ∧
      actual.objType ≠ objTypeNone then .refused true
  else if required.rights = rightSameRights ∨ actual.rights = rightSameRights then .unchanged
  else if subtractRights required.rights actual.rights ≠ 0 then .refused true
  else if subtractRights actual.rights required.rights ≠ 0 then
    successor.elim (.refused false) .replaced
  else .unchanged

/-- The `kCodingError` texts of encoding and decoding; what a transport reports
about a handle is one of them. -/
inductive CodingError where
  | backingBufferSizeExceeded
  | allocationSizeExceeds32Bits
  | vectorLimitExceeded
  | nullDataReceivedForNonNullableVector
  | nullVectorMustHaveSizeZero
  | nullDataReceivedForTable
  | stringNotValidUtf8
  | invalidBoolean
  | invalidPaddingBytes
  | invalidPresenceIndicator
  | invalidInlineBit
  | invalidNumBytesSpecifiedInEnvelope
  | invalidNumHandlesSpecifiedInEnvelope
  | recursionDepthExceeded
  | absentNonNullableHandle
  | tooManyHandlesConsumed
  | invalidHandleInInput
  | handleProcessing
  | notAllBytesConsumed
  | notAllHandlesConsumed
  deriving DecidableEq, Repr

/-- A word of a struct that holds padding: its offset, and the mask of the
padding in memory order. -/
structure Padding where
  offset : Nat
  mask : List UInt8
  deriving DecidableEq, Repr

mutual

/-- A type with a `WireCodingTraits` instance. -/
inductive Ty where
  | primitive (size : Nat)
  | bool
  | array (element : Ty) (count : Nat)
  | vector (element : Ty) (limit : Nat) (optional : Bool)
  | string (limit : Nat) (optional : Bool)
  | handle (attrs : HandleAttributes) (optional : Bool)
  | box (inner : Ty)
  | struct (members : Members) (paddings : List Padding)
  | table (fields : Fields)

/-- The members of a struct in declaration order, each with the number of
padding bytes after it. -/
inductive Members where
  | nil
  | cons (ty : Ty) (gap : Nat) (rest : Members)

/-- The ordinals of a table from 1 on; a reserved one has no coding function. -/
inductive Fields where
  | nil
  | reserved (rest : Fields)
  | field (ty : Ty) (rest : Fields)

end

mutual

/-- `inline_size`. -/
def Ty.inlineSize : Ty → Nat
  | .primitive size => size
  | .bool => 1
  | .array element count => element.inlineSize * count
  | .vector _ _ _ => 16
  | .string _ _ => 16
  | .handle _ _ => 4
  | .box _ => 8
  | .struct members _ => members.size
  | .table _ => 16

def Members.size : Members → Nat
  | .nil => 0
  | .cons ty gap rest => ty.inlineSize + gap + rest.size

end

mutual

/-- `is_memcpy_compatible`. -/
def Ty.isMemcpyCompatible : Ty → Bool
  | .primitive _ => true
  | .array element _ => element.isMemcpyCompatible
  | .struct members _ => members.areMemcpyCompatible
  | _ => false

/-- `are_members_memcpy_compatible` and not `kHasPadding`. -/
def Members.areMemcpyCompatible : Members → Bool
  | .nil => true
  | .cons ty gap rest => ty.isMemcpyCompatible && gap == 0 && rest.areMemcpyCompatible

end

/-! ## Well-formed types -/

/-- Whether a byte of a struct is padding. -/
def Members.gapAt : Members → Nat → Bool
  | .nil, _ => false
  | .cons ty gap rest, offset =>
    if offset < ty.inlineSize then false
    else if offset < ty.inlineSize + gap then true
    else rest.gapAt (offset - (ty.inlineSize + gap))

lemma Members.gapAt_gap (rest : Members) (i : Nat) (inside : i < gap) :
    (Members.cons ty gap rest).gapAt (ty.inlineSize + i) = true := by
  simp [Members.gapAt, inside]

lemma Members.gapAt_rest :
    (Members.cons ty gap rest).gapAt (ty.inlineSize + gap + offset) = rest.gapAt offset := by
  rw [Members.gapAt, if_neg (by omega), if_neg (by omega), Nat.add_sub_cancel_left]

lemma Members.gapAt_lt : (members : Members) → {offset : Nat} → members.gapAt offset = true →
    offset < members.size
  | .cons ty gap rest, offset, found => by
    rw [Members.gapAt] at found
    rw [Members.size]
    split at found
    · cases found
    split at found
    · omega
    · have tail := Members.gapAt_lt rest found
      omega

/-- The words with padding lie in the struct, their masks select padding only,
and every padding byte is selected. -/
structure Members.PaddedBy (members : Members) (paddings : List Padding) : Prop where
  inside : ∀ padding ∈ paddings, padding.offset + padding.mask.length ≤ members.size
  sound : ∀ padding ∈ paddings, ∀ i byte, padding.mask[i]? = some byte → byte ≠ 0 →
    members.gapAt (padding.offset + i) = true
  complete : ∀ offset, members.gapAt offset = true →
    ∃ padding ∈ paddings, ∃ i, offset = padding.offset + i ∧ padding.mask[i]? = some 255

mutual

/-- No object is empty, and the padding of structs is described. -/
def Ty.WellFormed : Ty → Prop
  | .primitive size => 0 < size
  | .array element count => element.WellFormed ∧ 0 < count
  | .vector element _ _ => element.WellFormed
  | .box inner => inner.WellFormed
  | .struct members paddings => members.WellFormed ∧ 0 < members.size ∧ members.PaddedBy paddings
  | .table fields => fields.WellFormed
  | _ => True

def Members.WellFormed : Members → Prop
  | .nil => True
  | .cons ty _ rest => ty.WellFormed ∧ rest.WellFormed

def Fields.WellFormed : Fields → Prop
  | .nil => True
  | .reserved rest => rest.WellFormed
  | .field ty rest => ty.WellFormed ∧ rest.WellFormed

end

lemma Ty.inlineSize_pos : (ty : Ty) → ty.WellFormed → 0 < ty.inlineSize
  | .primitive _, positive => positive
  | .bool, _ => Nat.one_pos
  | .array element _, ⟨formed, count⟩ => Nat.mul_pos (element.inlineSize_pos formed) count
  | .vector _ _ _, _ => Nat.succ_pos _
  | .string _ _, _ => Nat.succ_pos _
  | .handle _ _, _ => Nat.succ_pos _
  | .box _, _ => Nat.succ_pos _
  | .struct _ _, ⟨_, positive, _⟩ => positive
  | .table _, _ => Nat.succ_pos _

/-! ## Values -/

/-- The content of an envelope that has no coding function. -/
abbrev Envelope : Type := Vector UInt8 8

mutual

/-- The values of a type. A vector, string or box may be null. -/
def Ty.Value : Ty → Type
  | .primitive size => Vector UInt8 size
  | .bool => Bool
  | .array element count => Vector element.Value count
  | .vector element _ _ => Option (List element.Value)
  | .string _ _ => Option (List UInt8)
  | .handle _ _ => Handle
  | .box inner => Option inner.Value
  | .struct members _ => members.Value
  | .table fields => fields.Value

def Members.Value : Members → Type
  | .nil => Unit
  | .cons ty _ rest => ty.Value × rest.Value

/-- The envelopes of a table up to its count, which may end before an ordinal or
go on after the last known one. -/
def Fields.Value : Fields → Type
  | .nil => List Envelope
  | .reserved rest => Option (Envelope × rest.Value)
  | .field ty rest => Option (Option ty.Value × rest.Value)

end

mutual

/-- The object representation of a value of a memcpy-compatible type. -/
def Ty.raw : (ty : Ty) → ty.Value → List UInt8
  | .primitive _, v => Vector.toList v
  | .array element _, v => (Vector.toList v).flatMap element.raw
  | .struct members _, v => members.raw v
  | _, _ => []

def Members.raw : (members : Members) → members.Value → List UInt8
  | .nil, _ => []
  | .cons ty _ rest, v => ty.raw v.1 ++ rest.raw v.2

end

/-- The number of envelopes of a table. -/
def Fields.count : (fields : Fields) → fields.Value → Nat
  | .nil, more => List.length more
  | .reserved _, none => 0
  | .reserved rest, some v => rest.count v.2 + 1
  | .field _ _, none => 0
  | .field _ rest, some v => rest.count v.2 + 1

mutual

/-- The present handles of a value, in the order of its fields. -/
def Ty.handles : (ty : Ty) → ty.Value → List Handle
  | .array element _, v => (Vector.toList v).flatMap (Ty.handles element)
  | .vector element _ _, v => (Option.getD v []).flatMap (Ty.handles element)
  | .handle _ _, v => List.filter (fun handle : Handle => handle != 0) [v]
  | .box inner, v => (Option.toList v).flatMap (Ty.handles inner)
  | .struct members _, v => Members.handles members v
  | .table fields, v => Fields.handles fields v
  | _, _ => []

def Members.handles : (members : Members) → members.Value → List Handle
  | .nil, _ => []
  | .cons ty _ rest, v => Ty.handles ty v.1 ++ Members.handles rest v.2

def Fields.handles : (fields : Fields) → fields.Value → List Handle
  | .nil, _ => []
  | .reserved _, none => []
  | .reserved rest, some v => Fields.handles rest v.2
  | .field _ _, none => []
  | .field ty rest, some v =>
    (Option.toList v.1).flatMap (Ty.handles ty) ++ Fields.handles rest v.2

end

/-! ## Images -/

/-- The bytes of an object, the out-of-line objects it refers to in depth-first
order, and the handles of both. -/
structure Image where
  inline : List UInt8
  outOfLine : List UInt8 := []
  handles : List Handle := []
  deriving DecidableEq, Repr

namespace Image

def append (left right : Image) : Image where
  inline := left.inline ++ right.inline
  outOfLine := left.outOfLine ++ right.outOfLine
  handles := left.handles ++ right.handles

instance : Append Image := ⟨append⟩

@[simp] lemma inline_append (left right : Image) :
    (left ++ right).inline = left.inline ++ right.inline := rfl

@[simp] lemma outOfLine_append (left right : Image) :
    (left ++ right).outOfLine = left.outOfLine ++ right.outOfLine := rfl

@[simp] lemma handles_append (left right : Image) :
    (left ++ right).handles = left.handles ++ right.handles := rfl

lemma append_assoc (first second third : Image) : first ++ second ++ third = first ++ (second ++ third) := by
  change append (append first second) third = append first (append second third)
  simp [append]

lemma append_bytes (image : Image) (bytes : List UInt8) :
    image ++ ({ inline := bytes } : Image) = { image with inline := image.inline ++ bytes } := by
  change append image _ = _
  simp [append]

end Image

/-- The object out of line. -/
def Image.place (image : Image) : Image where
  inline := []
  outOfLine := pad image.inline ++ image.outOfLine
  handles := image.handles

lemma Image.bytes_place (bytes : List UInt8) (image : Image) :
    ({ inline := bytes } : Image) ++ image.place = { image.place with inline := bytes } := by
  change append _ _ = _
  simp [append, place]

/-- `FIDL_ALLOC_PRESENT`. -/
def allocPresent : Nat := 2 ^ 64 - 1

/-- `FIDL_ALLOC_ABSENT`. -/
def allocAbsent : Nat := 0

/-- `FIDL_HANDLE_PRESENT`. -/
def handlePresent : Nat := 2 ^ 32 - 1

/-- `FIDL_HANDLE_ABSENT`. -/
def handleAbsent : Nat := 0

/-- `FIDL_ENVELOPE_INLINING_SIZE_THRESHOLD`. -/
def inliningSizeThreshold : Nat := 4

/-- `kWireRecursionDepthMax`. -/
def recursionDepthMax : Nat := 32

/-- A `fidl_vector_t`. -/
def vectorHeader (count data : Nat) : List UInt8 := littleEndian 8 count ++ littleEndian 8 data

@[simp] lemma length_vectorHeader : (vectorHeader count data).length = 16 := by
  simp [vectorHeader]

lemma words_vectorHeader (small : count < 2 ^ 64)
    (known : data < 2 ^ 64) (loaded : load memory pos 16 = vectorHeader count data) :
    word memory pos 8 = count ∧ word memory (pos + 8) 8 = data := by
  rw [show 16 = 8 + 8 from rfl, load_add] at loaded
  obtain ⟨first, second⟩ := List.append_inj loaded (by simp)
  exact ⟨word_of_load (by omega) first, word_of_load (by omega) second⟩

lemma vectorHeader_split (count data : Nat) (image : Image) :
    ({ inline := vectorHeader count data } : Image) ++ image =
      { inline := littleEndian 8 count } ++ ({ inline := littleEndian 8 data } ++ image) :=
  Image.append_assoc { inline := littleEndian 8 count } { inline := littleEndian 8 data } image

/-- A `fidl_envelope_v2_t` whose first four bytes are given. -/
def envelopeHeader (first : List UInt8) (numHandles flags : Nat) : List UInt8 :=
  first ++ littleEndian 2 numHandles ++ littleEndian 2 flags

lemma words_envelopeHeader (length : first.length = 4) (few : numHandles < 2 ^ 16)
    (known : flags < 2 ^ 16) (loaded : load memory pos 8 = envelopeHeader first numHandles flags) :
    load memory pos 4 = first ∧ word memory (pos + 4) 2 = numHandles ∧ word memory (pos + 6) 2 = flags := by
  rw [show 8 = 4 + 2 + 2 from rfl, load_add, load_add] at loaded
  obtain ⟨front, last⟩ := List.append_inj loaded (by simp [length])
  obtain ⟨start, middle⟩ := List.append_inj front (by simp [length])
  exact ⟨start, word_of_load (by omega) middle, word_of_load (by omega) last⟩

def absentEnvelope : Image := { inline := List.replicate 8 0 }

/-- What the coding functions of one type are instantiated with. -/
structure Coding where
  /-- `IsRecursive`: whether depths are checked. -/
  recursive : Bool
  /-- What the generated drivers of tables add to the depth. -/
  tableDepth : Nat
  /-- `utfutils_is_valid_utf8`. -/
  isValidUtf8 : List UInt8 → Bool
  isValidUtf8_nil : isValidUtf8 [] = true

/-- `RecursionDepth::Add`. -/
def Coding.add (coding : Coding) (depth diff : Nat) : Option Nat :=
  if coding.recursive = true ∧ depth + diff > recursionDepthMax then none else some (depth + diff)

def boolByte (v : Bool) : UInt8 := if v then 1 else 0

def handleImage (optional : Bool) (v : Handle) : Option Image :=
  if v = 0 then
    if optional then some { inline := littleEndian 4 handleAbsent } else none
  else some { inline := littleEndian 4 handlePresent, handles := [v] }

/-- One object after another, if both have an image. -/
def join (first more : Option Image) : Option Image :=
  first.bind fun first => more.map (first ++ ·)

lemma join_eq_some : join first more = some joined ↔
      ∃ left right, first = some left ∧ more = some right ∧ joined = left ++ right := by
  cases first <;> cases more <;> simp [join, eq_comm]

/-- The objects of a list after each other. -/
def imageEach {α : Type} (image : α → Option Image) : List α → Option Image
  | [] => some { inline := [] }
  | v :: rest => join (image v) (imageEach image rest)

/-- An envelope that holds an object whose image is given. -/
def envelopeImage (size : Nat) (image : Image) : Image :=
  if size ≤ inliningSizeThreshold then
    { image with
      inline := envelopeHeader (image.inline ++ List.replicate (4 - image.inline.length) 0)
        image.handles.length 1 }
  else
    { image.place with
      inline := envelopeHeader (littleEndian 4 image.place.outOfLine.length)
        image.handles.length 0 }

def optionalEnvelopeImage {α : Type} (size : Nat) (image : α → Option Image) :
    Option α → Option Image
  | none => some absentEnvelope
  | some v => (image v).map (envelopeImage size)

section

variable (coding : Coding)

/-- The image of the elements of a present vector. -/
def vectorImage {α : Type} (image : Nat → α → Option Image) (limit : Nat) (values : List α)
    (depth : Nat) : Option Image :=
  if values.length > limit then none
  else if values = [] then some { inline := vectorHeader 0 allocPresent }
  else
    join (some { inline := vectorHeader values.length allocPresent })
      ((coding.add depth 1).bind fun depth => (imageEach (image depth) values).map Image.place)

def nullVectorImage (optional : Bool) : Image :=
  { inline := vectorHeader 0 (if optional then allocAbsent else allocPresent) }

mutual

/-- The wire format of a value at a recursion depth, if it has one. -/
def Ty.image : (ty : Ty) → (depth : Nat) → ty.Value → Option Image
  | .primitive _, _, v => some { inline := Vector.toList v }
  | .bool, _, v => some { inline := [boolByte v] }
  | .array element _, depth, v => imageEach (element.image depth) (Vector.toList v)
  | .vector _ _ optional, _, none => some (nullVectorImage optional)
  | .vector element limit _, depth, some values =>
    vectorImage coding (fun depth => element.image depth) limit values depth
  | .string _ optional, _, none => some (nullVectorImage optional)
  | .string limit _, depth, some bytes =>
    if coding.isValidUtf8 bytes then
      vectorImage coding (fun _ byte => some { inline := [byte] }) limit bytes depth
    else none
  | .handle _ optional, _, v => handleImage optional v
  | .box _, _, none => some { inline := littleEndian 8 allocAbsent }
  | .box inner, depth, some v =>
    join (some { inline := littleEndian 8 allocPresent })
      ((coding.add depth 1).bind fun depth => (inner.image depth v).map Image.place)
  | .struct members _, depth, v => members.image depth v
  | .table fields, depth, v =>
    if fields.count v = 0 then some { inline := vectorHeader 0 allocPresent }
    else
      join (some { inline := vectorHeader (fields.count v) allocPresent })
        ((coding.add depth coding.tableDepth).bind fun depth =>
          (fields.image depth v).map Image.place)

def Members.image : (members : Members) → (depth : Nat) → members.Value → Option Image
  | .nil, _, _ => some { inline := [] }
  | .cons ty gap rest, depth, v =>
    join (ty.image depth v.1)
      (join (some { inline := List.replicate gap 0 }) (rest.image depth v.2))

def Fields.image : (fields : Fields) → (depth : Nat) → fields.Value → Option Image
  | .nil, _, more => imageEach (fun _ : Envelope => some absentEnvelope) more
  | .reserved _, _, none => some { inline := [] }
  | .reserved rest, depth, some v => join (some absentEnvelope) (rest.image depth v.2)
  | .field _ _, _, none => some { inline := [] }
  | .field ty rest, depth, some v =>
    join (optionalEnvelopeImage ty.inlineSize (ty.image depth) v.1) (rest.image depth v.2)

end

end

/-! ## Images of values -/

variable {coding : Coding} {depth : Nat} {α : Type}

@[simp] lemma length_envelopeHeader :
    (envelopeHeader first numHandles flags).length = first.length + 4 := by
  simp [envelopeHeader]

lemma length_inline_envelopeImage
    (length : image.inline.length = size) : (envelopeImage size image).inline.length = 8 := by
  unfold envelopeImage inliningSizeThreshold
  split <;> simp
  omega

lemma imageEach_raw (one : ∀ v, image v = some { inline := raw v }) (values : List α) :
    imageEach image values = some { inline := values.flatMap raw } := by
  induction values with
  | nil => rfl
  | cons v _ ih =>
    rw [imageEach, one, ih]
    rfl

mutual

/-- The image of a memcpy-compatible value is its object representation. -/
lemma Ty.image_raw : (ty : Ty) → ty.isMemcpyCompatible = true → ∀ v,
    ty.image coding depth v = some { inline := ty.raw v }
  | .primitive _, _, _ => rfl
  | .array element _, compatible, _ => imageEach_raw (Ty.image_raw element compatible) _
  | .struct members _, compatible, v => Members.image_raw members compatible v

lemma Members.image_raw : (members : Members) → members.areMemcpyCompatible = true → ∀ v,
    members.image coding depth v = some { inline := members.raw v }
  | .nil, _, _ => rfl
  | .cons ty gap rest, compatible, v => by
    simp only [Members.areMemcpyCompatible, Bool.and_eq_true, beq_iff_eq] at compatible
    obtain ⟨⟨head, rfl⟩, tail⟩ := compatible
    rw [Members.image, Ty.image_raw ty head, Members.image_raw rest tail]
    rfl

end

lemma length_imageEach
    (one : ∀ v emitted, image v = some emitted → emitted.inline.length = stride)
    (emitted : Image) (found : imageEach image values = some emitted) :
    emitted.inline.length = values.length * stride := by
  induction values generalizing emitted with
  | nil =>
    cases found
    simp
  | cons v _ ih =>
    obtain ⟨left, right, here, there, rfl⟩ := join_eq_some.mp found
    rw [Image.inline_append, List.length_append, one v left here, ih right there, List.length_cons]
    ring

/-- An object that refers to one out of line. -/
lemma length_deeper {image : Nat → Option Image} (found : join (some { inline := first })
      ((coding.add depth diff).bind fun depth => (image depth).map Image.place) = some emitted) :
    emitted.inline.length = first.length := by
  obtain ⟨_, _, here, there, rfl⟩ := join_eq_some.mp found
  obtain ⟨inner, -, there⟩ := Option.bind_eq_some_iff.mp there
  obtain ⟨_, -, rfl⟩ := Option.map_eq_some_iff.mp there
  cases here
  simp [Image.place]

lemma length_vectorImage (found : vectorImage coding image limit values depth = some emitted) :
    emitted.inline.length = 16 := by
  unfold vectorImage at found
  split at found
  · cases found
  split at found
  · cases found
    simp
  · rw [length_deeper found, length_vectorHeader]

mutual

lemma Ty.length_image : (ty : Ty) → (depth : Nat) → (v : ty.Value) → (emitted : Image) →
    ty.image coding depth v = some emitted → emitted.inline.length = ty.inlineSize
  | .primitive size, _, v, _, found => by
    cases found
    exact Vector.length_toList
  | .bool, _, _, _, found => by
    cases found
    rfl
  | .array element count, depth, v, emitted, found => by
    rw [length_imageEach (element.length_image depth) emitted found, Ty.inlineSize, Nat.mul_comm]
    exact congrArg _ Vector.length_toList
  | .vector _ _ _, _, none, _, found => by
    cases found
    exact length_vectorHeader ..
  | .vector _ _ _, _, some _, _, found => length_vectorImage found
  | .string _ _, _, none, _, found => by
    cases found
    exact length_vectorHeader ..
  | .string _ _, _, some _, _, found => by
    simp only [Ty.image] at found
    split at found
    · exact length_vectorImage found
    · cases found
  | .handle _ _, _, _, _, found => by
    simp only [Ty.image, handleImage] at found
    split at found
    · split at found <;> cases found
      exact length_littleEndian ..
    · cases found
      exact length_littleEndian ..
  | .box _, _, none, _, found => by
    cases found
    exact length_littleEndian ..
  | .box _, _, some _, _, found => (length_deeper found).trans (length_littleEndian ..)
  | .struct members _, depth, v, emitted, found =>
    Members.length_image members depth v emitted found
  | .table _, _, _, _, found => by
    simp only [Ty.image] at found
    split at found
    · cases found
      exact length_vectorHeader ..
    · exact (length_deeper found).trans (length_vectorHeader ..)

lemma Members.length_image : (members : Members) → (depth : Nat) → (v : members.Value) →
    (emitted : Image) → members.image coding depth v = some emitted → emitted.inline.length = members.size
  | .nil, _, _, _, found => by
    cases found
    rfl
  | .cons ty gap rest, depth, v, emitted, found => by
    obtain ⟨first, more, here, there, rfl⟩ := join_eq_some.mp found
    obtain ⟨_, last, same, after, rfl⟩ := join_eq_some.mp there
    cases same
    simp only [Image.inline_append, List.length_append, List.length_replicate, Members.size]
    rw [Ty.length_image ty depth v.1 first here, Members.length_image rest depth v.2 last after]
    omega

end

lemma length_optionalEnvelopeImage
    (length : ∀ v emitted, image v = some emitted → emitted.inline.length = size)
    (found : optionalEnvelopeImage size image v = some emitted) : emitted.inline.length = 8 := by
  cases v with
  | none =>
    cases found
    rfl
  | some v =>
    obtain ⟨inner, inside, rfl⟩ := Option.map_eq_some_iff.mp found
    exact length_inline_envelopeImage (length v inner inside)

lemma Ty.length_raw (coding : Coding) (ty : Ty) (compatible : ty.isMemcpyCompatible = true)
    (v : ty.Value) : (ty.raw v).length = ty.inlineSize := by
  have image : ty.image coding 0 v = some _ := ty.image_raw compatible v
  exact ty.length_image 0 v _ image

lemma Fields.length_image : (fields : Fields) → (depth : Nat) → (v : fields.Value) →
    (emitted : Image) → fields.image coding depth v = some emitted →
    emitted.inline.length = 8 * fields.count v
  | .nil, _, more, emitted, found => by
    have each : emitted.inline.length = List.length more * 8 :=
      length_imageEach (fun _ _ same => by cases same; rfl) emitted found
    rw [each]
    exact Nat.mul_comm ..
  | .reserved _, _, none, _, found => by
    cases found
    rfl
  | .reserved rest, depth, some v, emitted, found => by
    obtain ⟨first, more, here, there, rfl⟩ := join_eq_some.mp found
    cases here
    have tail := Fields.length_image rest depth v.2 more there
    simp [Fields.count, absentEnvelope, tail]
    omega
  | .field _ _, _, none, _, found => by
    cases found
    rfl
  | .field ty rest, depth, some v, emitted, found => by
    obtain ⟨first, more, here, there, rfl⟩ := join_eq_some.mp found
    have tail := Fields.length_image rest depth v.2 more there
    have head := length_optionalEnvelopeImage (ty.length_image depth) here
    simp only [Fields.count, Image.inline_append, List.length_append, tail, head]
    omega

end FuchsiaSdk.WireFormat
