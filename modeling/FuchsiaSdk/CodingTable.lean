import FuchsiaSdk.WireFormat

/-! FIDL coding tables (`fidl_base/include/lib/fidl/internal.h`): the data that
tells the walker how to go through a message. The table of a recursive type is
written as the tree of its unfolding, to the depth that a walk can reach. Names,
and what only other visitors read, are left out. -/
namespace FuchsiaSdk.CodingTable
open Memory WireFormat

/-- `FidlCodedPrimitiveSubtype`. -/
inductive PrimitiveSubtype where
  | bool
  | int8
  | int16
  | int32
  | int64
  | uint8
  | uint16
  | uint32
  | uint64
  | float32
  | float64
  deriving DecidableEq, Repr

namespace PrimitiveSubtype

/-- `PrimitiveSize`. -/
def size : PrimitiveSubtype → Nat
  | bool | int8 | uint8 => 1
  | int16 | uint16 => 2
  | int32 | uint32 | float32 => 4
  | int64 | uint64 | float64 => 8

def signed : PrimitiveSubtype → Bool
  | int8 | int16 | int32 | int64 => true
  | _ => false

/-- An integer as a `uint64_t`, which extends the sign of a signed one. -/
def read (subtype : PrimitiveSubtype) (memory : Memory) (pos : Nat) : UInt64 :=
  let v := word memory pos subtype.size
  let modulus := 256 ^ subtype.size
  if subtype.signed ∧ modulus ≤ 2 * v then UInt64.ofNat (v + (2 ^ 64 - modulus))
  else UInt64.ofNat v

end PrimitiveSubtype

mutual

/-- `fidl_type_t`. Sizes and counts are `uint32_t`. -/
inductive CodedType where
  | primitive (subtype : PrimitiveSubtype)
  | enum (underlying : PrimitiveSubtype) (strict : Bool) (validate : UInt64 → Bool)
  | bits (underlying : PrimitiveSubtype) (strict : Bool) (mask : UInt64)
  | struct (isEmpty : Bool) (size : Nat) (elements : Elements)
  | structPointer (isEmpty : Bool) (size : Nat) (elements : Elements)
  | table (isResource : Bool) (fields : TableFields)
  | xunion (nullable strict isResource : Bool) (fields : UnionFields)
  | array (elementSize arraySize : Nat) (element : CodedType)
  | string (nullable : Bool) (maxSize : Nat)
  | handle (nullable : Bool) (attrs : HandleAttributes)
  | vector (nullable : Bool) (maxCount elementSize : Nat) (element : CodedType)

/-- `FidlStructElement`s. -/
inductive Elements where
  | nil
  | field (off : Nat) (ty : CodedType) (rest : Elements)
  | padding (padding : Padding) (rest : Elements)

/-- `FidlTableField`s. -/
inductive TableFields where
  | nil
  | field (ordinal : Nat) (ty : CodedType) (rest : TableFields)

/-- `FidlUnionField`s from ordinal 1 on; one without a type is reserved. -/
inductive UnionFields where
  | nil
  | reserved (rest : UnionFields)
  | field (ty : CodedType) (rest : UnionFields)

end

/-- `TypeSize`. -/
def CodedType.typeSize : CodedType → Nat
  | .primitive subtype => subtype.size
  | .enum underlying _ _ => underlying.size
  | .bits underlying _ _ => underlying.size
  | .struct _ size _ => size
  | .structPointer _ _ _ => 8
  | .table _ _ => 16
  | .xunion _ _ _ _ => 16
  | .array _ arraySize _ => arraySize
  | .string _ _ => 16
  | .handle _ _ => 4
  | .vector _ _ _ _ => 16

/-- Whether `WalkIterableInternal` walks elements of the type: of the primitives
only those that `NeedWalkPrimitive` names. -/
def CodedType.needWalk : CodedType → Bool
  | .primitive subtype => subtype = .bool
  | _ => true

mutual

/-- The fields of a struct are listed as they lie in it, one after the other, and elements have
the size of their type. -/
def CodedType.WellFormed : CodedType → Prop
  | .struct _ size elements => elements.WellFormed 0 size
  | .structPointer _ size elements => elements.WellFormed 0 size
  | .table _ fields => fields.WellFormed
  | .xunion _ _ _ fields => fields.WellFormed
  | .array elementSize arraySize element =>
    element.WellFormed ∧ elementSize = element.typeSize ∧ elementSize ∣ arraySize
  | .vector _ _ elementSize element => element.WellFormed ∧ elementSize = element.typeSize
  | _ => True

def Elements.WellFormed : Elements → (start stop : Nat) → Prop
  | .nil, _, _ => True
  | .field off ty rest, start, stop =>
    ty.WellFormed ∧ start ≤ off ∧ off + ty.typeSize ≤ stop ∧
      rest.WellFormed (off + ty.typeSize) stop
  | .padding _ rest, start, stop => rest.WellFormed start stop

def TableFields.WellFormed : TableFields → Prop
  | .nil => True
  | .field _ ty rest => ty.WellFormed ∧ rest.WellFormed

def UnionFields.WellFormed : UnionFields → Prop
  | .nil => True
  | .reserved rest => rest.WellFormed
  | .field ty rest => ty.WellFormed ∧ rest.WellFormed

end

mutual

/-- The padding of a struct lies in it and, where its mask is set, behind the
fields that come before it; an empty struct has its byte. -/
def CodedType.Padded : CodedType → Prop
  | .struct isEmpty size elements => (isEmpty = true → 0 < size) ∧ elements.Padded 0 size
  | .structPointer isEmpty size elements => (isEmpty = true → 0 < size) ∧ elements.Padded 0 size
  | .table _ fields => fields.Padded
  | .xunion _ _ _ fields => fields.Padded
  | .array _ _ element => element.Padded
  | .vector _ _ _ element => element.Padded
  | _ => True

def Elements.Padded : Elements → (start stop : Nat) → Prop
  | .nil, _, _ => True
  | .field off ty rest, _, stop => ty.Padded ∧ rest.Padded (off + ty.typeSize) stop
  | .padding padding rest, start, stop =>
    padding.offset + padding.mask.length ≤ stop ∧
      (∀ i byte, padding.mask[i]? = some byte → byte ≠ 0 → start ≤ padding.offset + i) ∧
      rest.Padded start stop

def TableFields.Padded : TableFields → Prop
  | .nil => True
  | .field _ ty rest => ty.Padded ∧ rest.Padded

def UnionFields.Padded : UnionFields → Prop
  | .nil => True
  | .reserved rest => rest.Padded
  | .field ty rest => ty.Padded ∧ rest.Padded

end

end FuchsiaSdk.CodingTable
