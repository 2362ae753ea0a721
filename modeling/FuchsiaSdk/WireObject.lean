import FuchsiaSdk.WireDecoder

/-! The object that a decoded buffer holds: what is read from it by following
the pointers that decoding has written. -/
namespace FuchsiaSdk.WireObject
open Memory WireFormat

def viewEach {α : Type} (view : Memory → Nat → α) (stride : Nat) (memory : Memory) :
    (count pos : Nat) → List α
  | 0, _ => []
  | count + 1, pos =>
    view memory pos :: viewEach view stride memory count (pos + stride)

@[simp] lemma length_viewEach {α : Type} (view : Memory → Nat → α) :
    (viewEach view stride memory count pos).length = count := by
  induction count generalizing pos with
  | zero => rfl
  | succ count ih => simp [viewEach, ih]

section

variable (base : Nat)

/-- A vector or string view: null, or its elements. -/
def viewVector {α : Type} (view : Memory → Nat → α) (stride : Nat) (memory : Memory)
    (pos : Nat) : Option (List α) :=
  if word memory (pos + 8) 8 = 0 then none
  else
    some (viewEach view stride memory (word memory pos 8) (word memory (pos + 8) 8 - base))

def viewBox {α : Type} (view : Memory → Nat → α) (memory : Memory) (pos : Nat) : Option α :=
  if word memory pos 8 = 0 then none
  else some (view memory (word memory pos 8 - base))

/-- An envelope of a known ordinal: one with an inlined object is set if its flag
is, another one if its pointer is not null. -/
def viewEnvelope {α : Type} (view : Memory → Nat → α) (size : Nat) (memory : Memory)
    (pos : Nat) : Option α :=
  if size ≤ inliningSizeThreshold then
    if word memory (pos + 6) 2 % 2 = 0 then none else some (view memory pos)
  else viewBox base view memory pos

def viewRaw (memory : Memory) (pos : Nat) : Envelope :=
  ⟨(load memory pos 8).toArray, by simp⟩

mutual

/-- The value of the object at a position of a decoded buffer. -/
def Ty.view : (ty : Ty) → Memory → (pos : Nat) → ty.Value
  | .primitive size, memory, pos =>
    (⟨(load memory pos size).toArray, by simp⟩ : Vector UInt8 size)
  | .bool, memory, pos => (memory pos ≠ 0 : Bool)
  | .array element count, memory, pos =>
    (⟨(viewEach (Ty.view element) element.inlineSize memory count pos).toArray, by simp⟩ :
      Vector element.Value count)
  | .vector element _ _, memory, pos =>
    viewVector base (Ty.view element) element.inlineSize memory pos
  | .string _ _, memory, pos =>
    viewVector base (fun memory pos => memory pos) 1 memory pos
  | .handle _ _, memory, pos => UInt32.ofNat (word memory pos 4)
  | .box inner, memory, pos => viewBox base (Ty.view inner) memory pos
  | .struct members _, memory, pos => Members.view members memory pos
  | .table fields, memory, pos =>
    Fields.view fields memory (word memory pos 8) (word memory (pos + 8) 8 - base)

def Members.view : (members : Members) → Memory → (pos : Nat) → members.Value
  | .nil, _, _ => ()
  | .cons ty gap rest, memory, pos =>
    (Ty.view ty memory pos, Members.view rest memory (pos + (ty.inlineSize + gap)))

def Fields.view : (fields : Fields) → Memory → (count pos : Nat) → fields.Value
  | .nil, memory, count, pos => viewEach viewRaw 8 memory count pos
  | .reserved _, _, 0, _ => none
  | .reserved rest, memory, count + 1, pos =>
    some (viewRaw memory pos, Fields.view rest memory count (pos + 8))
  | .field _ _, _, 0, _ => none
  | .field ty rest, memory, count + 1, pos =>
    some (viewEnvelope base (Ty.view ty) ty.inlineSize memory pos,
      Fields.view rest memory count (pos + 8))

end

end

end FuchsiaSdk.WireObject
