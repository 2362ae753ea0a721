import FuchsiaSdk.WireEncodeImage
import FuchsiaSdk.WireObject

/-! Decoding what was encoded. The decoder accepts the image of a value and turns
it into an object that reads as the value, provided that its own depth limit
allows it: `EncodePrework` and `PrepareForBodyEncode` return before the depth is
checked if there are no elements, `DecodePrework` does not. -/
namespace FuchsiaSdk.WireRoundTrip

lemma vector_eq {α : Type} (v : Vector α size) {list : List α}
    (same : list = v.toList) (length : list.toArray.size = size) :
    (⟨list.toArray, length⟩ : Vector α size) = v := by
  subst same
  obtain ⟨⟨_⟩, _⟩ := v
  rfl

open Memory WireFormat WireDecoder WireObject
open List hiding count
open Decoder (allocThen)
open Image (inline_append outOfLine_append handles_append)

/-! ## What a value reads as -/

/-- A null vector that is not optional becomes an empty one. -/
def normaliseVector {α : Type} (optional : Bool) (normalise : α → α) :
    Option (List α) → Option (List α)
  | none => if optional then none else some []
  | some values => some (values.map normalise)

def absentRaw : Envelope := Vector.replicate 8 0

mutual

/-- The value after the two conversions that the encoder documents. -/
def Ty.normalise : (ty : Ty) → ty.Value → ty.Value
  | .array element _, v => Vector.map (Ty.normalise element) v
  | .vector element _ optional, v => normaliseVector optional (Ty.normalise element) v
  | .string _ optional, v => normaliseVector optional id v
  | .box inner, v => Option.map (Ty.normalise inner) v
  | .struct members _, v => Members.normalise members v
  | .table fields, v => Fields.normalise fields v
  | .primitive _, v => v
  | .bool, v => v
  | .handle _ _, v => v

def Members.normalise : (members : Members) → members.Value → members.Value
  | .nil, v => v
  | .cons ty _ rest, v => (Ty.normalise ty v.1, Members.normalise rest v.2)

/-- An envelope without an encode function becomes absent. -/
def Fields.normalise : (fields : Fields) → fields.Value → fields.Value
  | .nil, more => List.map (fun _ => absentRaw) more
  | .reserved _, none => none
  | .reserved rest, some v => some (absentRaw, Fields.normalise rest v.2)
  | .field _ _, none => none
  | .field ty rest, some v =>
    some (Option.map (Ty.normalise ty) v.1, Fields.normalise rest v.2)

end

section

variable (coding : Coding)

/-- Whether something one or more levels deeper is within the depth limit. -/
def within (depth diff : Nat) (inside : Nat → Bool) : Bool :=
  match coding.add depth diff with
  | none => false
  | some depth => inside depth

/-- The elements of a vector that is present in the message. -/
def shallowVector {α : Type} (optional : Bool) (shallow : Nat → α → Bool) (depth : Nat) :
    Option (List α) → Bool
  | none => optional || within coding depth 1 fun _ => true
  | some values => within coding depth 1 fun depth => values.all (shallow depth)

mutual

/-- Whether the depth limit allows a value as the decoder counts depths: also an
empty vector, string or table counts. -/
def Ty.shallow : (ty : Ty) → (depth : Nat) → ty.Value → Bool
  | .array element _, depth, v => (Vector.toList v).all (Ty.shallow element depth)
  | .vector element _ optional, depth, v =>
    shallowVector coding optional (fun depth => Ty.shallow element depth) depth v
  | .string _ optional, depth, v => shallowVector coding optional (fun _ _ => true) depth v
  | .box _, _, none => true
  | .box inner, depth, some v => within coding depth 1 fun depth => Ty.shallow inner depth v
  | .struct members _, depth, v => Members.shallow members depth v
  | .table fields, depth, v =>
    within coding depth coding.tableDepth fun depth => Fields.shallow fields depth v
  | _, _, _ => true

def Members.shallow : (members : Members) → (depth : Nat) → members.Value → Bool
  | .nil, _, _ => true
  | .cons ty _ rest, depth, v =>
    Ty.shallow ty depth v.1 && Members.shallow rest depth v.2

def Fields.shallow : (fields : Fields) → (depth : Nat) → fields.Value → Bool
  | .nil, _, _ => true
  | .reserved _, _, none => true
  | .reserved rest, depth, some v => Fields.shallow rest depth v.2
  | .field _ _, _, none => true
  | .field ty rest, depth, some v =>
    (Option.toList v.1).all (Ty.shallow ty depth) && Fields.shallow rest depth v.2

end

end

/-! ## Buffers that hold an image -/

/-- The buffer and the handle array, which stay what they are. -/
structure Received (base : Nat) (dec : Decoder) : Prop where
  start : dec.base = base
  positive : 0 < base
  address : base + dec.size < 2 ^ 64
  size : dec.size < 2 ^ 32
  few : dec.handles.length < 2 ^ 16
  present : ∀ handle ∈ dec.handles, handle ≠ 0

/-- The inline part of an image is at a position, and the rest of it is next. -/
structure Holds (base : Nat) (dec : Decoder) (pos : Nat) (image : Image) : Prop where
  received : Received base dec
  error : dec.error = none
  inline : load dec.memory pos image.inline.length = image.inline
  outOfLine : load dec.memory dec.next image.outOfLine.length = image.outOfLine
  below : pos + image.inline.length ≤ dec.next
  fits : dec.next + image.outOfLine.length ≤ dec.size
  aligned : 8 ∣ dec.next
  handles : image.handles <+: dec.handles.drop dec.index

/-- From one state of the decoder to the other an image was consumed, and the
places where it was now satisfy a condition. -/
structure Reads (before after : Decoder) (pos : Nat) (image : Image)
    (condition : Memory → Prop) : Prop where
  error : after.error = none
  base : after.base = before.base
  size : after.size = before.size
  array : after.handles = before.handles
  next : after.next = before.next + image.outOfLine.length
  aligned : 8 ∣ after.next
  index : after.index = before.index + image.handles.length
  frame : ∀ address, address < pos ∨ pos + image.inline.length ≤ address →
    address < before.next ∨ after.next ≤ address → after.memory address = before.memory address
  view : ∀ memory, AgreeOn pos (pos + image.inline.length) memory after.memory →
    AgreeOn before.next after.next memory after.memory → condition memory

section

variable {base : Nat} {before middle after dec : Decoder} {pos size : Nat}
  {image more : Image} {condition condition' : Memory → Prop} {bytes : List UInt8}

lemma Reads.mono (reads : Reads before after pos image condition)
    (weaker : ∀ memory, condition memory → condition' memory) : Reads before after pos image condition' :=
  { reads with view := fun memory here there => weaker memory (reads.view memory here there) }

lemma Holds.first (holds : Holds base dec pos (image ++ more)) : Holds base dec pos image := by
  have inline := holds.inline
  have outOfLine := holds.outOfLine
  have below := holds.below
  have fits := holds.fits
  rw [inline_append, length_append, load_add] at inline
  rw [outOfLine_append, length_append, load_add] at outOfLine
  rw [inline_append, length_append] at below
  rw [outOfLine_append, length_append] at fits
  refine { holds with inline := ?_, outOfLine := ?_, below := ?_, fits := ?_, handles := ?_ }
  · exact (append_inj inline (length_load ..)).1
  · exact (append_inj outOfLine (length_load ..)).1
  · omega
  · omega
  · exact (prefix_append ..).trans holds.handles

lemma Received.of_same (received : Received base before) (same : after.base = before.base)
    (size : after.size = before.size) (array : after.handles = before.handles) : Received base after := by
  refine ⟨same.trans received.start, received.positive, ?_, ?_, ?_, ?_⟩
  · rw [size]
    exact received.address
  · exact size ▸ received.size
  · exact array ▸ received.few
  · exact array ▸ received.present

/-- The second image is still there after the first one was consumed. -/
lemma Holds.second (holds : Holds base before pos (image ++ more))
    (reads : Reads before middle pos image condition) :
    Holds base middle (pos + image.inline.length) more := by
  have inline := holds.inline
  have outOfLine := holds.outOfLine
  have below := holds.below
  have fits := holds.fits
  have handles := holds.handles
  have next := reads.next
  rw [inline_append, length_append, load_add] at inline
  rw [outOfLine_append, length_append, load_add] at outOfLine
  rw [inline_append, length_append] at below
  rw [outOfLine_append, length_append] at fits
  refine ⟨holds.received.of_same reads.base reads.size reads.array, reads.error, ?_, ?_, ?_, ?_,
    reads.aligned, ?_⟩
  · refine (load_congr fun addr low high => ?_).trans
      (append_inj inline (length_load ..)).2
    exact reads.frame addr (by omega) (by omega)
  · rw [next]
    refine (load_congr fun addr low high => ?_).trans
      (append_inj outOfLine (length_load ..)).2
    exact reads.frame addr (by omega) (by omega)
  · omega
  · rw [reads.size]
    omega
  · rw [reads.array, reads.index, ← drop_drop]
    obtain ⟨_, split⟩ := handles
    rw [handles_append, append_assoc] at split
    rw [← split, drop_left]
    exact prefix_append ..

lemma Reads.append (first : Reads before middle pos image condition)
    (second : Reads middle after (pos + image.inline.length) more condition')
    (inside : pos + image.inline.length + more.inline.length ≤ before.next) :
    Reads before after pos (image ++ more) (fun memory => condition memory ∧ condition' memory) := by
  have next := first.next
  have next' := second.next
  refine ⟨second.error, second.base.trans first.base, second.size.trans first.size,
    second.array.trans first.array, ?_, second.aligned, ?_, ?_, ?_⟩
  · rw [next', next, outOfLine_append, length_append, Nat.add_assoc]
  · rw [second.index, first.index, handles_append, length_append, Nat.add_assoc]
  · intro addr outside _
    rw [inline_append, length_append] at outside
    rw [second.frame addr (by omega) (by omega), first.frame addr (by omega) (by omega)]
  · intro memory here there
    rw [inline_append, length_append] at here
    constructor
    · refine first.view memory (fun addr low high => ?_) fun addr low high => ?_
      · rw [here addr low (by omega)]
        exact second.frame addr (by omega) (by omega)
      · rw [there addr low (by omega)]
        exact second.frame addr (by omega) (by omega)
    · refine second.view memory (here.mono (by omega) (by omega)) (there.mono (by omega) (by omega))

/-- Nothing was to be done. -/
lemma Holds.idle (holds : Holds base dec pos { inline := bytes }) :
    Reads dec dec pos { inline := bytes }
      (fun memory => load memory pos bytes.length = bytes) := by
  refine ⟨holds.error, rfl, rfl, rfl, rfl, holds.aligned, rfl, fun _ _ _ => rfl, ?_⟩
  intro memory here _
  exact (load_congr here).trans holds.inline

lemma Holds.write (holds : Holds base dec pos { inline := bytes })
    (length : new.length = bytes.length) :
    Reads dec (dec.write pos new) pos { inline := bytes }
      (fun memory => load memory pos new.length = new) := by
  refine ⟨holds.error, rfl, rfl, rfl, rfl, holds.aligned, rfl, ?_, ?_⟩
  · intro _ outside _
    exact store_outside (by simp only at outside; omega)
  · intro memory here _
    rw [load_congr (length ▸ here)]
    exact load_store ..

/-! ## Objects out of line -/

lemma Holds.alloc (holds : Holds base dec pos image.place) (length : image.inline.length = size) :
    dec.alloc size = (some dec.next, dec.advance (dec.next + align size)) := by
  have outOfLine := holds.outOfLine
  have fits := holds.fits
  have above := le_align size
  simp only [Image.place, length_append, length_pad, length] at outOfLine fits
  rw [load_add] at outOfLine
  have padded := (append_inj outOfLine (by simp [length])).1
  have split : align size = size + (align size - size) := by omega
  rw [split, load_add] at padded
  have zeros := (append_inj padded (by simp [length])).2
  unfold Decoder.alloc
  split
  next empty =>
    rw [empty]
    rfl
  · simp only [align_add holds.aligned]
    rw [if_neg (by omega), Nat.add_sub_add_left, zeros, if_neg (by simp)]

lemma Holds.inside (holds : Holds base dec pos image.place) (length : image.inline.length = size) :
    Holds base (dec.advance (dec.next + align size)) dec.next image := by
  have outOfLine := holds.outOfLine
  have fits := holds.fits
  have above := le_align size
  simp only [Image.place, length_append, length_pad, length] at outOfLine fits
  rw [load_add] at outOfLine
  obtain ⟨padded, rest⟩ := append_inj outOfLine (by simp [length])
  have split : align size = size + (align size - size) := by omega
  rw [split, load_add] at padded
  refine ⟨holds.received.of_same rfl rfl rfl, holds.error, ?_, rest, ?_, ?_, ?_, holds.handles⟩
  · rw [length]
    exact (append_inj padded (by simp [length])).1
  · rw [length]
    exact Nat.add_le_add_left above _
  · simp only [Decoder.advance]
    omega
  · exact Nat.dvd_add holds.aligned (dvd_align size)

lemma Reads.place (pos : Nat) (length : image.inline.length = size)
    (reads : Reads (dec.advance (dec.next + align size)) after dec.next image condition) :
    Reads dec after pos image.place condition := by
  have above := le_align size
  have next : after.next = dec.next + align size + image.outOfLine.length := reads.next
  refine ⟨reads.error, reads.base, reads.size, reads.array, ?_, reads.aligned, reads.index, ?_, ?_⟩
  · simp only [Image.place, length_append, length_pad, length]
    omega
  · intro addr _ _
    refine reads.frame addr ?_ ?_
    · omega
    · simp only [Decoder.advance]
      omega
  · intro memory _ there
    refine reads.view memory (there.mono (Nat.le_refl _) (by omega)) (there.mono ?_ (Nat.le_refl _))
    simp only [Decoder.advance]
    omega

private lemma word_pointer (received : Received base dec) (inside : target ≤ dec.size)
    (loaded : load memory pos 8 = littleEndian 8 (dec.base + target)) :
    word memory pos 8 = base + target := by
  have addr := received.address
  rw [received.start] at loaded
  refine word_of_load ?_ loaded
  omega

/-- A pointer and the object out of line that it refers to. -/
structure Refers (base : Nat) (before : Decoder) (pos size : Nat) (old : List UInt8) (image : Image) where
  allocated : before.alloc size = (some before.next, before.advance (before.next + align size))
  inside : Holds base ((before.point pos before.next).advance (before.next + align size))
    before.next image
  reads : ∀ after condition,
    Reads ((before.point pos before.next).advance (before.next + align size)) after
      before.next image condition →
    Reads before after pos ({ inline := old } ++ image.place) fun memory =>
      word memory pos 8 = base + before.next ∧ condition memory

lemma Holds.refer (holds : Holds base dec pos ({ inline := old } ++ image.place))
    (eight : old.length = 8) (length : image.inline.length = size) :
    Refers base dec pos size old image := by
  have header : Reads dec (dec.point pos dec.next) pos { inline := old } _ :=
    holds.first.write (by rw [length_littleEndian, eight])
  have there : Holds base (dec.point pos dec.next) _ _ := holds.second header
  have fits := holds.fits
  refine ⟨?_, there.inside length, fun after condition reads => ?_⟩
  · exact (holds.second holds.first.idle).alloc length
  · refine (header.append (Reads.place _ length reads) ?_).mono fun memory both => ⟨?_, both.2⟩
    · have below := holds.below
      simpa [Image.place] using below
    · refine word_pointer holds.received (by omega) ?_
      simpa using both.1

end

/-! ## Coding traits -/

/-- The image is consumed if it is within the depth limit, and is an error
otherwise. -/
structure Decodes (ok : Bool) (before after : Decoder) (pos : Nat) (image : Image)
    (condition : Memory → Prop) : Prop where
  reads : ok = true → Reads before after pos image condition
  fails : ok = false → after.error.isSome = true

/-- Decoding the image of a value gives an object that reads as the value. -/
structure Readable {α : Type} (base stride : Nat) (image : α → Option Image) (shallow : α → Bool)
    (decode : Nat → Decoder → Decoder) (view : Memory → Nat → α) (normalise : α → α) : Prop where
  sticky : ∀ pos dec, Sticky dec (decode pos dec)
  length : ∀ v emitted, image v = some emitted → emitted.inline.length = stride
  decodes : ∀ v emitted, image v = some emitted → ∀ pos dec, Holds base dec pos emitted →
    Decodes (shallow v) dec (decode pos dec) pos emitted
      fun memory => view memory pos = normalise v

section

variable (base : Nat) (coding : Coding) (cfg : Config)

/-- Decoding the image of a value succeeds exactly if the depth limit allows it,
and then gives an object that reads as the value. -/
def TypeDecodes (ty : Ty) (depth : Nat) : Prop :=
  ∀ v emitted, ty.image coding depth v = some emitted → ∀ pos dec, Holds base dec pos emitted →
    Decodes (Ty.shallow coding ty depth v) dec
      (Ty.decode coding cfg ty depth pos dec) pos emitted
      fun memory => Ty.view base ty memory pos = Ty.normalise ty v

def MembersDecode (members : Members) (depth : Nat) : Prop :=
  ∀ v emitted, members.image coding depth v = some emitted → ∀ pos dec, Holds base dec pos emitted →
    Decodes (Members.shallow coding members depth v) dec
      (Members.decode coding cfg members depth pos dec) pos emitted
      fun memory => Members.view base members memory pos = Members.normalise members v

def FieldsDecode (fields : Fields) (depth : Nat) : Prop :=
  ∀ v emitted, fields.image coding depth v = some emitted → ∀ pos dec, Holds base dec pos emitted →
    Decodes (Fields.shallow coding fields depth v) dec
      (Fields.decode coding cfg fields depth (fields.count v) pos dec) pos
      emitted
      fun memory => Fields.view base fields memory (fields.count v) pos = Fields.normalise fields v

end

section

variable {base : Nat} {before middle after dec : Decoder} {pos size : Nat}
  {image more emitted : Image} {condition condition' : Memory → Prop} {bytes : List UInt8}
  {ok ok' : Bool} {α : Type} {coding : Coding} {cfg : Config} {optional : Bool}
variable {stride : Nat} {shallow : α → Bool} {decode : Nat → Decoder → Decoder}
  {view : Memory → Nat → α} {normalise : α → α}

lemma Reads.decodes (reads : Reads before after pos image condition) :
    Decodes true before after pos image condition :=
  ⟨fun _ => reads, fun no => absurd no.symm Bool.false_ne_true⟩

lemma Decodes.mono (decodes : Decodes ok before after pos image condition)
    (weaker : ∀ memory, condition memory → condition' memory) :
    Decodes ok before after pos image condition' :=
  ⟨fun fine => (decodes.reads fine).mono weaker, decodes.fails⟩

/-- One object after the other. -/
lemma Holds.decodes (holds : Holds base before pos (image ++ more)) (length : image.inline.length = size)
    (first : Decodes ok before middle pos image condition) (sticky : Sticky middle after)
    (second : Holds base middle (pos + size) more → Decodes ok' middle after (pos + size) more condition') :
    Decodes (ok && ok') before after pos (image ++ more)
      fun memory => condition memory ∧ condition' memory := by
  subst length
  have below := holds.below
  rw [inline_append, length_append] at below
  constructor
  · intro both
    obtain ⟨fine, fine'⟩ := Bool.and_eq_true_iff.mp both
    have reads := first.reads fine
    exact reads.append ((second (holds.second reads)).reads fine') (by omega)
  · intro either
    cases fine : ok with
    | false => exact sticky (first.fails fine)
    | true =>
      rw [fine] at either
      exact (second (holds.second (first.reads fine))).fails either

/-- Bytes that decoding leaves as they are, and an object after them. -/
lemma Holds.kept (holds : Holds base before pos ({ inline := bytes } ++ more))
    (length : bytes.length = size)
    (second : Holds base before (pos + size) more →
      Decodes ok before after (pos + size) more condition) :
    Decodes ok before after pos ({ inline := bytes } ++ more)
      fun memory => load memory pos size = bytes ∧ condition memory := by
  subst length
  have below := holds.below
  rw [inline_append, length_append] at below
  have decodes := second (holds.second holds.first.idle)
  refine ⟨fun fine => ?_, decodes.fails⟩
  exact holds.first.idle.append (decodes.reads fine) (by omega)

lemma decodes_each {image : α → Option Image} (cfg : Config)
    (readable : Readable base stride image shallow decode view normalise)
    (found : imageEach image values = some emitted) (holds : Holds base dec pos emitted) :
    Decodes (values.all shallow) dec (decodeEach decode stride values.length pos dec) pos emitted
      fun memory => viewEach view stride memory values.length pos = values.map normalise := by
  induction values generalizing pos dec emitted with
  | nil =>
    cases found
    exact (holds.idle.mono fun _ _ => rfl).decodes
  | cons v rest ih =>
    obtain ⟨first, _, here, there, rfl⟩ := join_eq_some.mp found
    have one := readable.decodes v first here pos dec holds.first
    have sticky := (sticky_respected cfg).each readable.sticky stride rest.length
      (pos + stride) (decode pos dec)
    have all := holds.decodes (readable.length v first here) one sticky fun next => ih there next
    refine all.mono fun memory both => ?_
    simp only [length_cons, viewEach, map_cons, both.1, both.2]

lemma decodes_deeper (deeper : ∀ inner, coding.add depth diff = some inner →
      Decodes (inside inner) dec (body inner dec) pos image condition) :
    Decodes (within coding depth diff inside) dec (dec.deeper coding depth diff body)
      pos image condition := by
  unfold within Decoder.deeper
  cases added : coding.add depth diff with
  | none => exact ⟨nofun, fun _ => by simp [Decoder.setError]⟩
  | some inner => exact deeper inner added

lemma Holds.header (holds : Holds base dec pos image) (count data : Nat)
    (inline : image.inline = vectorHeader count data) (small : count < 2 ^ 64) (known : data < 2 ^ 64) :
    word dec.memory pos 8 = count ∧ word dec.memory (pos + 8) 8 = data := by
  have loaded := holds.inline
  rw [inline] at loaded
  exact words_vectorHeader small known loaded

/-- The image of a vector that is present in the message. -/
private lemma vectorImage_cases {image : Nat → α → Option Image}
    (length : ∀ depth v emitted, image depth v = some emitted → emitted.inline.length = stride)
    (found : vectorImage coding image limit values depth = some emitted) :
    values.length ≤ limit ∧ emitted.inline = vectorHeader values.length allocPresent ∧
      values.length * stride ≤ emitted.outOfLine.length ∧
      ∀ inner, coding.add depth 1 = some inner → ∃ body, imageEach (image inner) values = some body ∧
        emitted = { inline := vectorHeader values.length allocPresent } ++ body.place := by
  unfold vectorImage at found
  split at found
  · cases found
  rename_i limited
  refine ⟨Nat.le_of_not_lt limited, ?_⟩
  split at found
  next empty =>
    cases found
    subst empty
    exact ⟨rfl, by simp, fun inner _ => ⟨_, rfl, rfl⟩⟩
  · obtain ⟨_, _, here, there, rfl⟩ := join_eq_some.mp found
    obtain ⟨inner, added, there⟩ := Option.bind_eq_some_iff.mp there
    obtain ⟨body, elements, rfl⟩ := Option.map_eq_some_iff.mp there
    cases here
    refine ⟨by simp [Image.place], ?_, fun inner' added' => ?_⟩
    · have total := length_imageEach (length inner) body elements
      have above := le_align body.inline.length
      simp only [outOfLine_append, Image.place, nil_append, length_append, length_pad]
      omega
    · cases added.symm.trans added'
      exact ⟨body, elements, rfl⟩

lemma Refers.decodes (refers : Refers base before pos size old image)
    (inside : Decodes ok ((before.point pos before.next).advance (before.next + align size))
      after before.next image condition) :
    Decodes ok before after pos ({ inline := old } ++ image.place) fun memory =>
      word memory pos 8 = base + before.next ∧ condition memory :=
  ⟨fun fine => refers.reads after condition (inside.reads fine), inside.fails⟩

/-- A count, a pointer and the objects out of line that it refers to. -/
structure Counted (base : Nat) (before : Decoder) (pos size count : Nat) (image : Image) :
    Prop where
  allocated : before.alloc size = (some before.next, before.advance (before.next + align size))
  inside : Holds base ((before.point (pos + 8) before.next).advance (before.next + align size))
    before.next image
  decodes : ∀ {ok after condition},
    Decodes ok ((before.point (pos + 8) before.next).advance (before.next + align size)) after
      before.next image condition →
    Decodes ok before after pos
      ({ inline := vectorHeader count allocPresent } ++ image.place) fun memory =>
        word memory pos 8 = count ∧ word memory (pos + 8) 8 = base + before.next ∧ condition memory

lemma Holds.counted (holds : Holds base dec pos
      ({ inline := vectorHeader count allocPresent } ++ image.place))
    (small : count < 2 ^ 64) (length : image.inline.length = size) :
    Counted base dec pos size count image := by
  -- The count stays as it is, the marker becomes a pointer.
  rw [vectorHeader_split] at holds
  have rest := holds.second holds.first.idle
  have refers := rest.refer (length_littleEndian ..) length
  refine ⟨refers.allocated, refers.inside, fun inside => ?_⟩
  refine (holds.kept (length_littleEndian ..) fun _ => refers.decodes inside).mono
    fun memory ⟨kept, rest⟩ => ?_
  exact ⟨word_of_load (by omega) kept, rest⟩

lemma decodeEach_skip (skip : ∀ pos dec, decode pos dec = dec) (stride count : Nat) :
    ∀ pos dec, decodeEach decode stride count pos dec = dec := by
  induction count with
  | zero => exact fun _ _ => rfl
  | succ count ih =>
    intro pos dec
    rw [decodeEach, skip, ih]

private lemma decodes_elements {image : α → Option Image} (cfg : Config)
    (readable : Readable base stride image shallow decode view normalise)
    (skips : compatible = true → ∀ pos dec, decode pos dec = dec)
    (found : imageEach image values = some body) (small : values.length < 2 ^ 64)
    (holds : Holds base dec pos ({ inline := vectorHeader values.length allocPresent } ++ body.place)) :
    Decodes (values.all shallow) dec
      (decodeElements compatible decode stride pos dec) pos
      ({ inline := vectorHeader values.length allocPresent } ++ body.place)
      fun memory => viewVector base view stride memory pos = some (values.map normalise) := by
  obtain ⟨count, -⟩ := holds.header values.length allocPresent (by simp [Image.place]) small
    (by decide)
  have counted := holds.counted small (length_imageEach readable.length body found)
  have unfolded : decodeElements compatible decode stride pos dec =
      decodeEach decode stride values.length dec.next
        ((dec.point (pos + 8) dec.next).advance
          (dec.next + align (values.length * stride))) := by
    unfold decodeElements
    rw [count, allocThen, counted.allocated]
    simp only
    split
    · rw [decodeEach_skip (skips ‹_›)]
      rfl
    · rfl
  rw [unfolded]
  have elements := decodes_each cfg readable found counted.inside
  have positive := holds.received.positive
  refine (counted.decodes elements).mono fun memory done => ?_
  obtain ⟨kept, ptr, read⟩ := done
  rw [viewVector, ptr, if_neg (by omega), kept, Nat.add_sub_cancel_left, read]

private lemma prework_present (counted : word dec.memory pos 8 = count)
    (marked : word dec.memory (pos + 8) 8 = allocPresent) (limited : count ≤ limit)
    (small : count < 2 ^ 32) : decodePrework pos optional limit dec = (true, dec) := by
  unfold decodePrework
  simp only [counted, marked]
  rw [if_neg (by omega), if_neg (by omega), if_pos trivial]

section

variable {compatible : Bool} {image : Nat → α → Option Image} {shallow : Nat → α → Bool}
  {decode : Nat → Nat → Decoder → Decoder} (cfg) (positive : 0 < stride)
  (readable : ∀ depth,
    Readable base stride (image depth) (shallow depth) (decode depth) view normalise)
  (skips : compatible = true → ∀ depth pos dec, decode depth pos dec = dec)
include cfg positive readable skips

/-- A vector that is present in the message. -/
lemma decodes_present (values : List α) (found : vectorImage coding image limit values depth = some emitted)
    (holds : Holds base dec pos emitted) :
    Decodes (within coding depth 1 fun depth => values.all (shallow depth)) dec
      (decodeVector coding compatible decode stride limit optional pos depth dec) pos emitted
      fun memory => viewVector base view stride memory pos = some (values.map normalise) := by
  obtain ⟨limited, inline, _, elements⟩ :=
    vectorImage_cases (fun depth => (readable depth).length) found
  have few : values.length ≤ values.length * stride := Nat.le_mul_of_pos_right _ positive
  have fits := holds.fits
  have size := holds.received.size
  obtain ⟨counted, marked⟩ := holds.header values.length allocPresent inline (by omega) (by decide)
  unfold decodeVector
  rw [prework_present counted marked limited (by omega)]
  refine decodes_deeper fun inner added => ?_
  obtain ⟨_, inside, rfl⟩ := elements inner added
  exact decodes_elements cfg (readable inner) (fun compatible => skips compatible inner)
    inside (by omega) holds

lemma decodes_vector (values : Option (List α)) (found : (match values with
      | none => some (nullVectorImage optional)
      | some values => vectorImage coding image limit values depth) = some emitted)
    (holds : Holds base dec pos emitted) :
    Decodes (shallowVector coding optional shallow depth values) dec
      (decodeVector coding compatible decode stride limit optional pos depth dec) pos
      emitted
      fun memory => viewVector base view stride memory pos =
        normaliseVector optional normalise values := by
  cases values with
  | some values => exact decodes_present cfg positive readable skips values found holds
  | none =>
    cases optional with
    | false =>
      refine decodes_present cfg positive readable skips [] ?_ holds
      simpa [vectorImage, nullVectorImage] using found
    | true =>
      cases found
      obtain ⟨counted, marked⟩ := holds.header 0 allocAbsent rfl (by decide) (by decide)
      have unchanged : decodeVector coding compatible decode stride limit true pos depth
          dec = dec := by
        simp [decodeVector, decodePrework, counted, marked, allocAbsent, allocPresent]
      rw [unchanged]
      refine (holds.idle.mono fun memory loaded => ?_).decodes
      obtain ⟨-, null⟩ := words_vectorHeader (by decide) (by decide) loaded
      rw [viewVector, null]
      rfl

end

private lemma viewEach_bytes : viewEach (fun memory pos => memory pos) 1 memory count pos =
      load memory pos count := by
  induction count generalizing pos with
  | zero => rfl
  | succ count ih => rw [viewEach, load, ih]

private lemma readable_byte : Readable base 1 (fun byte => some { inline := [byte] }) (fun _ => true)
    (fun _ dec => dec) (fun memory pos => memory pos) id where
  sticky _ _ := id
  length byte emitted found := by
    cases found
    rfl
  decodes byte emitted found pos dec holds := by
    cases found
    refine (holds.idle.mono fun memory loaded => ?_).decodes
    exact (cons.inj loaded).1

/-- The bytes that the UTF-8 check reads. -/
lemma load_of_view (view : viewVector base (fun memory pos => memory pos) 1 memory pos =
      some text) : word memory (pos + 8) 8 ≠ 0 ∧
      load memory (word memory (pos + 8) 8 - base) (word memory pos 8) = text := by
  unfold viewVector at view
  split at view
  · cases view
  rename_i present
  rw [viewEach_bytes] at view
  exact ⟨present, Option.some.inj view⟩

private lemma decodes_string : TypeDecodes base coding cfg (.string limit optional) depth := by
  intro v emitted found pos dec holds
  have body : Decodes (shallowVector coding optional (fun _ _ => true) depth v) dec
      (decodeVector coding true (fun _ _ dec => dec) 1 limit optional pos depth dec)
      pos emitted
      fun memory => viewVector base (fun memory pos => memory pos) 1 memory pos =
        normaliseVector optional id v := by
    refine decodes_vector cfg Nat.one_pos (fun _ => readable_byte) (fun _ _ _ _ => rfl) v ?_
      holds
    cases v with
    | none => exact found
    | some bytes =>
      simp only [Ty.image] at found ⊢
      split at found
      · exact found
      · cases found
  have valid : ∀ text, normaliseVector optional id v = some text →
      coding.isValidUtf8 text = true := by
    intro text known
    cases v with
    | none =>
      cases optional with
      | false =>
        cases known
        exact coding.isValidUtf8_nil
      | true => cases known
    | some bytes =>
      cases known
      simp only [Ty.image] at found
      split at found
      · rwa [map_id]
      · cases found
  rw [Ty.decode, decodeString]
  revert body
  generalize decodeVector coding true (fun _ _ dec => dec) 1 limit optional pos depth
    dec = middle
  intro body
  constructor
  · intro fine
    have reads := body.reads fine
    have view := reads.view middle.memory (fun _ _ _ => rfl) (fun _ _ _ => rfl)
    have start : middle.base = base := reads.base.trans holds.received.start
    split
    · exact reads
    rename_i present
    cases known : normaliseVector optional id v with
    | none =>
      rw [known, viewVector, if_neg (fun null => present (Or.inl null))] at view
      cases view
    | some text =>
      obtain ⟨-, loaded⟩ := load_of_view (view.trans known)
      rw [start, loaded, if_pos (valid text known)]
      exact reads
  · intro deep
    have failed := body.fails deep
    rw [if_pos (Or.inr failed)]
    exact failed

lemma Holds.nextHandle (holds : Holds base dec pos image) (first : image.handles = handle :: rest) :
    dec.handles[dec.index]? = some handle := by
  obtain ⟨_, split⟩ := holds.handles
  rw [first] at split
  have head := congrArg head? split
  rw [head?_drop] at head
  exact head.symm

lemma Holds.storeHandle (holds : Holds base dec pos
      { inline := littleEndian 4 handlePresent, handles := [handle] }) :
    Reads dec (dec.storeHandle pos handle) pos
      { inline := littleEndian 4 handlePresent, handles := [handle] }
      fun memory => UInt32.ofNat (word memory pos 4) = handle := by
  have here := holds.nextHandle rfl
  obtain ⟨_, same⟩ := List.getElem?_eq_some_iff.mp here
  refine ⟨holds.error, rfl, rfl, ?_, rfl, holds.aligned, rfl, ?_, ?_⟩
  · simp only [Decoder.storeHandle]
    rw [← same, set_getElem_self]
  · intro _ outside _
    refine store_outside ?_
    simpa using outside
  · intro memory here _
    have loaded : load memory pos 4 = littleEndian 4 handle.toNat := by
      refine (load_congr here).trans ?_
      exact load_store_of_length (length_littleEndian ..)
    rw [word_of_load handle.toNat_lt loaded, UInt32.ofNat_toNat]

private lemma decodes_handle (accepts : ∀ attrs index, cfg.processHandle attrs index = .unchanged) :
    TypeDecodes base coding cfg (.handle attrs optional) depth := by
  intro _ _ found pos dec holds
  rw [Ty.image] at found
  unfold handleImage at found
  rw [Ty.decode, Decoder.decodeHandle]
  split at found
  next absent =>
    split at found <;> cases found
    rename_i may
    have marked : word dec.memory pos 4 = handleAbsent :=
      word_of_load (by decide) holds.inline
    rw [marked, if_pos may]
    refine (holds.idle.mono fun memory loaded => ?_).decodes
    have zero : word memory pos 4 = handleAbsent := word_of_load (by decide) loaded
    rw [Ty.view, zero, absent]
    rfl
  next present =>
    cases found
    have marked : word dec.memory pos 4 = handlePresent :=
      word_of_load (by decide) holds.inline
    rw [if_pos marked, holds.nextHandle rfl]
    simp only
    rw [if_neg present, accepts]
    exact holds.storeHandle.decodes

private lemma decodes_box {inner : Ty} (decodes : ∀ depth, TypeDecodes base coding cfg inner depth) :
    TypeDecodes base coding cfg (.box inner) depth := by
  intro v _ found pos dec holds
  rw [Ty.decode, decodeBox]
  cases v with
  | none =>
    cases found
    have null : word dec.memory pos 8 = allocAbsent :=
      word_of_load (by decide) holds.inline
    rw [null]
    refine (holds.idle.mono fun memory loaded => ?_).decodes
    have zero : word memory pos 8 = allocAbsent := word_of_load (by decide) loaded
    rw [Ty.view, viewBox, zero]
    rfl
  | some v =>
    obtain ⟨_, _, here, there, rfl⟩ := join_eq_some.mp found
    obtain ⟨depth, added, there⟩ := Option.bind_eq_some_iff.mp there
    obtain ⟨body, inside, rfl⟩ := Option.map_eq_some_iff.mp there
    cases here
    have marked : word dec.memory pos 8 = allocPresent :=
      word_of_load (by decide) holds.first.inline
    have refers := holds.refer (length_littleEndian ..) (inner.length_image depth v body inside)
    rw [if_pos marked]
    refine decodes_deeper fun depth' added' => ?_
    cases added.symm.trans added'
    rw [allocThen, refers.allocated]
    have object := decodes depth v body inside _ _ refers.inside
    refine (refers.decodes object).mono fun memory ⟨ptr, read⟩ => ?_
    have positive := holds.received.positive
    rw [Ty.view, viewBox, ptr, if_neg (by omega), Nat.add_sub_cancel_left, read]
    rfl

/-- Two checks after an object that both pass if it was consumed. -/
lemma Decodes.checked [Decidable first] [Decidable second]
    (decodes : Decodes ok before after pos image condition)
    (pass : Reads before after pos image condition → ¬first ∧ ¬second) : Decodes ok before
      (if first then after.setError error else if second then after.setError error' else after)
      pos image condition := by
  constructor
  · intro fine
    have reads := decodes.reads fine
    obtain ⟨no, nor⟩ := pass reads
    rwa [if_neg no, if_neg nor]
  · intro deep
    have failed := decodes.fails deep
    split
    · exact sticky_setError _ _ failed
    split
    · exact sticky_setError _ _ failed
    · exact failed

lemma Holds.handleCount (holds : Holds base dec pos image) : image.handles.length < 2 ^ 16 := by
  have bound := holds.handles.length_le
  rw [length_drop] at bound
  have few := holds.received.few
  omega

/-- An inlined object, and what follows it in the envelope. -/
lemma envelopeImage_inline (small : size ≤ inliningSizeThreshold) (length : image.inline.length = size) :
    envelopeImage size image = image ++ ({ inline := replicate (4 - size) 0 ++
      (littleEndian 2 image.handles.length ++ littleEndian 2 1) } : Image) := by
  rw [Image.append_bytes, envelopeImage, if_pos small, envelopeHeader, length]
  simp only [append_assoc]

lemma envelopeImage_outOfLine (large : ¬size ≤ inliningSizeThreshold) (image : Image) :
    envelopeImage size image = ({ inline := (envelopeHeader (littleEndian 4 image.place.outOfLine.length)
        image.handles.length 0) } : Image) ++ image.place := by
  rw [Image.bytes_place, envelopeImage, if_neg large]

lemma tail_of_load (small : size ≤ 4) (loaded : load memory (pos + size) (4 - size + (2 + 2)) =
      replicate (4 - size) 0 ++ (littleEndian 2 count ++ littleEndian 2 1)) :
    load memory (pos + size) (4 - size) = replicate (4 - size) 0 ∧ word memory (pos + 6) 2 = 1 := by
  rw [load_add, load_add] at loaded
  obtain ⟨padding, rest⟩ := append_inj loaded (by simp)
  obtain ⟨-, flagged⟩ := append_inj rest (by simp)
  rw [show pos + size + (4 - size) = pos + 4 by omega] at flagged
  exact ⟨padding, word_of_load (by decide) flagged⟩

lemma Holds.inlineWords (holds : Holds base dec pos (envelopeImage size image))
    (small : size ≤ inliningSizeThreshold) (length : image.inline.length = size) :
    word dec.memory (pos + 4) 2 = image.handles.length ∧ word dec.memory (pos + 6) 2 = 1 := by
  have few : image.handles.length < 2 ^ 16 := by
    rw [envelopeImage_inline small length] at holds
    exact holds.first.handleCount
  have loaded := holds.inline
  rw [length_inline_envelopeImage length, envelopeImage, if_pos small] at loaded
  have four : (image.inline ++ replicate (4 - image.inline.length) 0).length = 4 := by
    have bound : size ≤ 4 := small
    simp only [length_append, length_replicate]
    omega
  exact (words_envelopeHeader four few (by decide) loaded).2

lemma Holds.outOfLineWords (holds : Holds base dec pos (envelopeImage size image))
    (large : ¬size ≤ inliningSizeThreshold) : word dec.memory pos 4 = image.place.outOfLine.length ∧
      word dec.memory (pos + 4) 2 = image.handles.length ∧ word dec.memory (pos + 6) 2 = 0 := by
  rw [envelopeImage_outOfLine large] at holds
  have few : image.handles.length < 2 ^ 16 := holds.handleCount
  have fits := (holds.second holds.first.idle).fits
  have bound := holds.received.size
  have loaded : load dec.memory pos 8 = envelopeHeader
      (littleEndian 4 image.place.outOfLine.length) image.handles.length 0 := by
    simpa using holds.first.inline
  obtain ⟨started, words⟩ :=
    words_envelopeHeader (length_littleEndian ..) few (by decide) loaded
  exact ⟨word_of_load (by omega) started, words⟩

section

variable {image : α → Option Image} {inner : Image}
  (readable : Readable base size image shallow decode view normalise) (v : α)
  (found : image v = some inner) (holds : Holds base dec pos (envelopeImage size inner))
include readable found holds

private lemma decodes_inlineEnvelope (small : size ≤ inliningSizeThreshold) :
    Decodes (shallow v) dec (decodeEnvelope decode size pos dec) pos (envelopeImage size inner)
      fun memory => viewEnvelope base view size memory pos = some (normalise v) := by
  have length := readable.length v inner found
  have few : size ≤ 4 := small
  obtain ⟨counted, flagged⟩ := holds.inlineWords small length
  rw [envelopeImage_inline small length] at holds ⊢
  unfold decodeEnvelope
  rw [if_pos small, if_neg (not_not.mpr flagged)]
  have object := readable.decodes v inner found pos dec holds.first
  have whole := holds.decodes length object (fun failed => failed) fun next => next.idle.decodes
  rw [Bool.and_true] at whole
  refine (whole.checked fun reads => ?_).mono fun memory ⟨read, rest⟩ => ?_
  · obtain ⟨-, rest⟩ := reads.view _ (fun _ _ _ => rfl) fun _ _ _ => rfl
    simp only [length_append, length_replicate, length_littleEndian] at rest
    obtain ⟨padding, -⟩ := tail_of_load few rest
    have index := reads.index
    rw [counted, index, padding]
    simp
  · simp only [length_append, length_replicate, length_littleEndian] at rest
    obtain ⟨-, flagged⟩ := tail_of_load few rest
    rw [viewEnvelope, if_pos small, flagged, if_neg (by decide), read]

private lemma decodes_outOfLineEnvelope (large : ¬size ≤ inliningSizeThreshold) :
    Decodes (shallow v) dec (decodeEnvelope decode size pos dec) pos (envelopeImage size inner)
      fun memory => viewEnvelope base view size memory pos = some (normalise v) := by
  have length := readable.length v inner found
  obtain ⟨sized, counted, flagged⟩ := holds.outOfLineWords large
  rw [envelopeImage_outOfLine large] at holds ⊢
  have refers := holds.refer (by simp) length
  unfold decodeEnvelope
  rw [if_neg large, if_neg (not_not.mpr flagged), allocThen, refers.allocated]
  have object := refers.decodes (readable.decodes v inner found _ _ refers.inside)
  refine (object.checked fun reads => ?_).mono fun memory ⟨ptr, read⟩ => ?_
  · have index := reads.index
    have next := reads.next
    refine ⟨not_not.mpr ?_, not_not.mpr ?_⟩
    · rw [counted]
      exact index
    · rw [sized]
      exact next
  · have positive := holds.received.positive
    rw [viewEnvelope, if_neg large, viewBox, ptr, if_neg (by omega), Nat.add_sub_cancel_left, read]

end

/-- An envelope that is set is not all zero. -/
lemma word_envelope_ne_zero (set : word dec.memory (pos + 6) 2 ≠ 0 ∨
    word dec.memory pos 4 ≠ 0) : word dec.memory pos 8 ≠ 0 := by
  rw [show 8 = 4 + (2 + 2) from rfl, word_add, word_add, show pos + 4 + 2 = pos + 6 from rfl]
  omega

lemma decodes_absentEnvelope (holds : Holds base dec pos absentEnvelope) :
    Decodes true dec (decodeOptionalEnvelope decode pos dec) pos absentEnvelope
      fun memory => load memory pos 8 = replicate 8 0 := by
  have zero : word dec.memory pos 8 = 0 :=
    word_of_load (by decide) holds.inline
  unfold decodeOptionalEnvelope
  rw [if_pos zero]
  exact (holds.idle.mono fun memory loaded => by simpa using loaded).decodes

private lemma decodes_envelope {image : α → Option Image} (positive : 0 < size)
    (readable : Readable base size image shallow decode view normalise)
    (found : optionalEnvelopeImage size image v = some emitted) (holds : Holds base dec pos emitted) :
    Decodes (v.toList.all shallow) dec
      (decodeOptionalEnvelope (decodeEnvelope decode size) pos dec) pos emitted
      fun memory => viewEnvelope base view size memory pos = v.map normalise := by
  cases v with
  | none =>
    cases found
    refine (decodes_absentEnvelope holds).mono fun memory loaded => ?_
    have header : load memory pos 8 = envelopeHeader (replicate 4 0) 0 0 := loaded
    obtain ⟨-, -, unset⟩ := words_envelopeHeader rfl (by decide) (by decide) header
    have null : word memory pos 8 = 0 := word_of_load (by decide) loaded
    simp [viewEnvelope, viewBox, unset, null]
  | some v =>
    obtain ⟨inner, inside, rfl⟩ := Option.map_eq_some_iff.mp found
    rw [Option.toList_some, all_cons, all_nil, Bool.and_true]
    have length := readable.length v inner inside
    unfold decodeOptionalEnvelope
    by_cases small : size ≤ inliningSizeThreshold
    · obtain ⟨-, _⟩ := holds.inlineWords small length
      rw [if_neg (word_envelope_ne_zero (Or.inl (by omega)))]
      exact decodes_inlineEnvelope readable v inside holds small
    · obtain ⟨sized, -⟩ := holds.outOfLineWords small
      have some : inner.place.outOfLine.length ≠ 0 := by
        have room := align_pos positive
        simp only [Image.place, length_append, length_pad, length]
        omega
      rw [if_neg (word_envelope_ne_zero (Or.inr (sized ▸ some)))]
      exact decodes_outOfLineEnvelope readable v inside holds small

lemma fields_image_empty : (fields : Fields) → (v : fields.Value) → fields.count v = 0 →
    fields.image coding depth v = some { inline := [] }
  | .nil, more, empty => by
    rw [eq_nil_of_length_eq_zero empty]
    rfl
  | .reserved _, none, _ => rfl
  | .field _ _, none, _ => rfl

private lemma decodes_table {fields : Fields} (decodes : ∀ depth, FieldsDecode base coding cfg fields depth) :
    TypeDecodes base coding cfg (.table fields) depth := by
  intro v emitted found pos dec holds
  simp only [Ty.image] at found
  rw [Ty.decode]
  generalize number : fields.count v = count at found
  have unfolded : ∀ {rest}, count < 2 ^ 32 → emitted.inline = vectorHeader count allocPresent →
      decodeTable pos rest dec = dec.allocThen (8 * count) fun base dec =>
        rest count base (dec.point (pos + 8) base) := by
    intro rest _ inline
    obtain ⟨counted, marked⟩ := holds.header count allocPresent inline (by omega) (by decide)
    unfold decodeTable
    simp only [counted, marked]
    rw [if_neg (not_not.mpr rfl), if_neg (by omega)]
  cases added : coding.add depth coding.tableDepth with
  | none =>
    -- Only a table without envelopes is encoded so deep.
    have none : count = 0 := by
      by_contra some
      rw [if_neg some, added] at found
      cases found
    rw [if_pos none] at found
    cases found
    rw [unfolded (by omega) (by rw [none])]
    subst none
    refine ⟨fun fine => ?_, fun _ => ?_⟩
    · simp [Ty.shallow, within, added] at fine
    · simp [allocThen, Decoder.alloc, Decoder.deeper, added, Decoder.setError]
  | some inner =>
    obtain ⟨body, inside, rfl⟩ : ∃ body, fields.image coding inner v = some body ∧
        emitted = { inline := vectorHeader count allocPresent } ++ body.place := by
      split at found
      next none =>
        cases found
        exact ⟨_, fields_image_empty fields v (number.trans none), by rw [none]; rfl⟩
      · obtain ⟨_, _, here, there, rfl⟩ := join_eq_some.mp found
        rw [added, Option.bind_some] at there
        obtain ⟨body, inside, rfl⟩ := Option.map_eq_some_iff.mp there
        cases here
        exact ⟨body, inside, rfl⟩
    have total := number ▸ fields.length_image inner v body inside
    have fits := holds.fits
    have bound := holds.received.size
    have above := le_align body.inline.length
    simp only [outOfLine_append, Image.place, nil_append, length_append, length_pad] at fits
    have counted := holds.counted (by omega) total
    rw [unfolded (by omega) (by simp [Image.place]), allocThen, counted.allocated]
    simp only [Ty.shallow, Decoder.deeper, within, added]
    have envelopes := decodes inner v body inside _ _ counted.inside
    rw [number] at envelopes
    refine (counted.decodes envelopes).mono fun memory done => ?_
    obtain ⟨kept, ptr, read⟩ := done
    rw [Ty.view, kept, ptr, Nat.add_sub_cancel_left]
    exact read

/-! ## Padding -/

lemma checkPaddings_pass
    (zero : ∀ padding ∈ paddings, ∀ index byte, padding.mask[index]? = some byte → byte ≠ 0 →
      dec.memory (pos + (padding.offset + index)) = 0) : checkPaddings pos paddings dec = dec := by
  induction paddings with
  | nil => rfl
  | cons padding _ ih =>
    have here := zero padding mem_cons_self
    have pass : dec.checkPadding pos padding = dec := by
      unfold Decoder.checkPadding
      simp only
      rw [if_neg]
      intro found
      obtain ⟨masked, mem, nonzero⟩ := any_eq_true.mp found
      obtain ⟨index, place⟩ := getElem?_of_mem mem
      rw [getElem?_zipWith, getElem?_load] at place
      cases selected : padding.mask[index]? with
      | none => simp [selected] at place
      | some byte =>
        obtain ⟨inside, -⟩ := List.getElem?_eq_some_iff.mp selected
        rw [if_pos inside, selected] at place
        cases place
        by_cases plain : byte = 0
        · simp [plain] at nonzero
        have cleared := here index byte selected plain
        rw [← Nat.add_assoc] at cleared
        simp [cleared] at nonzero
    rw [checkPaddings, pass]
    exact ih fun other mem => zero other (mem_cons_of_mem _ mem)

end

/-- The padding of a struct is zero in its image. -/
lemma image_gap : (members : Members) → (v : members.Value) →
    (emitted : Image) → members.image coding depth v = some emitted → (off : Nat) →
    members.gapAt off = true → emitted.inline[off]? = some 0
  | .cons ty gap rest, v, emitted, found, off, padding => by
    obtain ⟨first, more, here, there, rfl⟩ := join_eq_some.mp found
    obtain ⟨_, last, same, after, rfl⟩ := join_eq_some.mp there
    cases same
    have length := ty.length_image depth v.1 first here
    rw [Members.gapAt] at padding
    simp only [inline_append]
    split at padding
    · cases padding
    split at padding
    · rw [getElem?_append_right (by omega), getElem?_append_left (by simp; omega),
        getElem?_replicate, if_pos (by omega)]
    have tail := image_gap rest v.2 last after _ padding
    rw [getElem?_append_right (by omega), getElem?_append_right (by simp; omega),
      length_replicate, length, Nat.sub_sub]
    exact tail

lemma Holds.gap {members : Members} {v : members.Value} (holds : Holds base dec pos emitted)
    (found : members.image coding depth v = some emitted)
    (padding : members.gapAt off = true) : dec.memory (pos + off) = 0 := by
  have zero := image_gap members v emitted found off padding
  obtain ⟨inside, -⟩ := List.getElem?_eq_some_iff.mp zero
  rw [← holds.inline, getElem?_load, if_pos inside] at zero
  exact Option.some.inj zero

lemma gapAt_compatible : (members : Members) → members.areMemcpyCompatible = true →
    (off : Nat) → members.gapAt off = false
  | .nil, _, _ => rfl
  | .cons ty gap rest, compatible, off => by
    simp only [Members.areMemcpyCompatible, Bool.and_eq_true, beq_iff_eq] at compatible
    obtain ⟨⟨-, rfl⟩, tail⟩ := compatible
    rw [Members.gapAt]
    split
    · rfl
    · rw [if_neg (by omega)]
      exact gapAt_compatible rest tail _

section

variable {coding : Coding} {cfg : Config}

mutual

/-- There is nothing to decode in a memcpy-compatible object. -/
lemma decode_compatible : (ty : Ty) → ty.WellFormed → ty.isMemcpyCompatible = true →
    (depth pos : Nat) → (dec : Decoder) → Ty.decode coding cfg ty depth pos dec = dec
  | .primitive _, _, _, _, _, _ => rfl
  | .array _ _, _, compatible, _, _, _ => if_pos compatible
  | .struct members paddings, ⟨formed, _, padded⟩, compatible, depth, pos, dec => by
    rw [Ty.decode, checkPaddings_pass, decodeMembers_compatible members formed compatible]
    intro padding mem index byte selected nonzero
    have gap := padded.sound padding mem index byte selected nonzero
    rw [gapAt_compatible members compatible] at gap
    cases gap

lemma decodeMembers_compatible : (members : Members) → members.WellFormed →
    members.areMemcpyCompatible = true → (depth pos : Nat) → (dec : Decoder) →
    Members.decode coding cfg members depth pos dec = dec
  | .nil, _, _, _, _, _ => rfl
  | .cons ty _ rest, ⟨formed, others⟩, compatible, depth, pos, dec => by
    simp only [Members.areMemcpyCompatible, Bool.and_eq_true] at compatible
    rw [Members.decode, decode_compatible ty formed compatible.1.1,
      decodeMembers_compatible rest others compatible.2]

end

end

/-! ## The main induction -/

private lemma boolByte_valid (v : Bool) : boolByte v = 0 ∨ boolByte v = 1 := by
  cases v <;> decide

private lemma boolByte_decide : decide (boolByte v ≠ 0) = v := by
  cases v <;> decide

lemma readable_unknown {base : Nat} (cfg : Config) :
    Readable base 8 (fun _ : Envelope => some absentEnvelope) (fun _ => true)
      (decodeOptionalEnvelope decodeUnknownEnvelope) viewRaw (fun _ => absentRaw) where
  sticky := (sticky_respected cfg).optionalEnvelope fun _ _ =>
    (sticky_respected cfg).unknownEnvelope
  length _ _ found := by
    cases found
    rfl
  decodes _ _ found pos dec holds := by
    cases found
    refine (decodes_absentEnvelope holds).mono fun memory loaded => ?_
    exact vector_eq absentRaw loaded (by simp)

section

variable {coding : Coding} {cfg : Config} {base : Nat}

lemma TypeDecodes.readable (decodes : TypeDecodes base coding cfg ty depth) :
    Readable base ty.inlineSize (ty.image coding depth) (Ty.shallow coding ty depth)
      (Ty.decode coding cfg ty depth) (Ty.view base ty) (Ty.normalise ty) :=
  ⟨(sticky_respected cfg).decode ty depth, ty.length_image depth, decodes⟩

variable (accepts : ∀ attrs index, cfg.processHandle attrs index = .unchanged)
include accepts

set_option linter.unusedSectionVars false in
mutual

lemma decode_decodes : (ty : Ty) → ty.WellFormed → (depth : Nat) → TypeDecodes base coding cfg ty depth
  | .primitive size, _, _ => by
    intro v emitted found pos dec holds
    cases found
    refine (holds.idle.mono fun memory loaded => ?_).decodes
    have length : (Vector.toList v).length = size := Vector.length_toList
    rw [length] at loaded
    exact vector_eq v loaded (by simp)
  | .bool, _, _ => by
    intro v emitted found pos dec holds
    cases found
    have byte := (cons.inj holds.inline).1
    rw [Ty.decode, byte, if_pos (boolByte_valid v)]
    refine (holds.idle.mono fun memory loaded => ?_).decodes
    rw [Ty.view, (cons.inj loaded).1]
    exact boolByte_decide
  | .array element count, ⟨formed, _⟩, depth => by
    intro v emitted found pos dec holds
    have each := decodes_each cfg (decode_decodes element formed depth).readable
      found holds
    have length : (Vector.toList v).length = count := Vector.length_toList
    have unfolded : Ty.decode coding cfg (.array element count) depth pos dec =
        decodeEach (Ty.decode coding cfg element depth) element.inlineSize
          (Vector.toList v).length pos dec := by
      rw [Ty.decode, length]
      split
      · rw [decodeEach_skip fun pos dec =>
          decode_compatible element formed ‹_› depth pos dec]
      · rfl
    rw [unfolded]
    refine each.mono fun memory read => ?_
    rw [length] at read
    refine vector_eq _ (read.trans ?_) (by simp)
    exact Vector.toList_map.symm
  | .vector element _ _, formed, _ => by
    intro v emitted found pos dec holds
    refine decodes_vector cfg (element.inlineSize_pos formed)
      (fun depth => (decode_decodes element formed depth).readable)
      (fun compatible => decode_compatible element formed compatible) v ?_ holds
    cases v <;> exact found
  | .string limit optional, _, depth => decodes_string
  | .handle attrs optional, _, depth => decodes_handle accepts
  | .box inner, formed, depth => decodes_box (decode_decodes inner formed)
  | .struct members paddings, ⟨formed, _, padded⟩, depth => by
    intro v emitted found pos dec holds
    rw [Ty.decode, checkPaddings_pass]
    · exact decodeMembers_decodes members formed depth v emitted found pos
        dec holds
    · intro padding mem index byte selected nonzero
      exact holds.gap found (padded.sound padding mem index byte selected nonzero)
  | .table fields, formed, depth => decodes_table (decodeFields_decodes fields formed)

lemma decodeMembers_decodes : (members : Members) → members.WellFormed → (depth : Nat) →
      MembersDecode base coding cfg members depth
  | .nil, _, _ => by
    intro v emitted found pos dec holds
    cases found
    exact (holds.idle.mono fun _ _ => rfl).decodes
  | .cons ty gap rest, ⟨formed, others⟩, depth => by
    intro v emitted found pos dec holds
    obtain ⟨first, more, here, there, rfl⟩ := join_eq_some.mp found
    obtain ⟨_, last, same, after, rfl⟩ := join_eq_some.mp there
    cases same
    have object := decode_decodes ty formed depth v.1 first here pos dec
      holds.first
    have all := holds.decodes (ty.length_image depth v.1 first here) object
      ((sticky_respected cfg).decodeMembers rest depth (pos + (ty.inlineSize + gap)) _)
      fun next => next.kept length_replicate fun next => by
        rw [Nat.add_assoc] at next ⊢
        exact decodeMembers_decodes rest others depth v.2 last after _ _ next
    refine all.mono fun memory ⟨head, _, tail⟩ => ?_
    exact Prod.ext head tail

lemma decodeFields_decodes : (fields : Fields) → fields.WellFormed → (depth : Nat) →
      FieldsDecode base coding cfg fields depth
  | .nil, _, _ => by
    intro v emitted found pos dec holds
    have each := decodes_each cfg (readable_unknown cfg) found holds
    have fine : (all v fun _ => true) = true := all_eq_true.mpr fun _ _ => rfl
    rw [fine] at each
    exact each
  | .reserved rest, formed, depth => by
    intro v emitted found pos dec holds
    cases v with
    | none =>
      cases found
      exact (holds.idle.mono fun _ _ => rfl).decodes
    | some v =>
      obtain ⟨first, more, here, there, rfl⟩ := join_eq_some.mp found
      cases here
      have absent := (readable_unknown cfg).decodes v.1 _ rfl pos dec holds.first
      have all := holds.decodes rfl absent
        ((sticky_respected cfg).decodeFields rest depth (rest.count v.2) (pos + 8) _)
        fun next => decodeFields_decodes rest formed depth v.2 more there _ _ next
      exact all.mono fun memory ⟨head, tail⟩ => congrArg some (Prod.ext head tail)
  | .field ty rest, ⟨formed, others⟩, depth => by
    intro v emitted found pos dec holds
    cases v with
    | none =>
      cases found
      exact (holds.idle.mono fun _ _ => rfl).decodes
    | some v =>
      obtain ⟨first, more, here, there, rfl⟩ := join_eq_some.mp found
      have envelope := decodes_envelope (ty.inlineSize_pos formed)
        (decode_decodes ty formed depth).readable here holds.first
      have all := holds.decodes (length_optionalEnvelopeImage (ty.length_image depth) here) envelope
        ((sticky_respected cfg).decodeFields rest depth (rest.count v.2) (pos + 8) _)
        fun next => decodeFields_decodes rest others depth v.2 more there _ _ next
      exact all.mono fun memory ⟨head, tail⟩ => congrArg some (Prod.ext head tail)

end

end

/-! ## WireDecode -/

lemma checkConsumed_error {dec : Decoder} (failed : dec.error.isSome = true) :
    dec.checkConsumed.error.isSome = true := by
  unfold Decoder.checkConsumed
  simp only
  repeat' split
  all_goals first
    | exact failed
    | exact sticky_setError _ _ failed
    | exact sticky_setError _ _ (sticky_setError _ _ failed)

private lemma finish_of_consumed {dec : Decoder} (sound : dec.error = none)
    (bytes : dec.size ≤ dec.next) (handles : dec.handles.length ≤ dec.index) :
    dec.checkConsumed.finish = (none, dec) := by
  have whole : dec.checkConsumed = dec := by
    unfold Decoder.checkConsumed
    simp only
    rw [if_neg (Nat.not_lt.mpr bytes), if_neg (Nat.not_lt.mpr handles)]
  rw [whole, Decoder.finish, sound]

private lemma finish_error {dec : Decoder} (failed : dec.error.isSome = true) : dec.finish.1 ≠ none := by
  obtain ⟨error, found⟩ := Option.isSome_iff_exists.mp failed
  simp [Decoder.finish, found]

section

variable {coding : Coding} {cfg : Config} {ty : Ty} {v : ty.Value} {image : Image}
  {base : Nat} {dec : Decoder}

/-- `WireDecode` of the image of a value that the depth limit allows. -/
private lemma wireDecode_of_shallow (accepts : ∀ attrs index, cfg.processHandle attrs index = .unchanged)
    (formed : ty.WellFormed) (found : ty.image coding 0 v = some image)
    (holds : Holds base dec 0 image.place) (start : dec.next = 0)
    (size : dec.size = image.place.outOfLine.length) (array : dec.handles = image.handles)
    (fine : Ty.shallow coding ty 0 v = true) : (wireDecode coding cfg ty dec).1 = none ∧
      Ty.view base ty (wireDecode coding cfg ty dec).2.memory 0 = Ty.normalise ty v := by
  have length := ty.length_image 0 v image found
  have decodes := decode_decodes accepts ty formed 0 v image found _ _ (holds.inside length)
  unfold wireDecode
  rw [allocThen, holds.alloc length]
  simp only
  have reads := (decodes.reads fine).place 0 length
  have view := reads.view _ (fun _ _ _ => rfl) fun _ _ _ => rfl
  rw [finish_of_consumed reads.error]
  · refine ⟨rfl, ?_⟩
    rw [start] at view ⊢
    exact view
  · rw [reads.size, reads.next, size]
    exact Nat.le_add_left ..
  · rw [reads.index, reads.array, array]
    exact Nat.le_add_left ..

lemma wireDecode_of_deep (accepts : ∀ attrs index, cfg.processHandle attrs index = .unchanged)
    (formed : ty.WellFormed) (found : ty.image coding 0 v = some image)
    (holds : Holds base dec 0 image.place) (deep : Ty.shallow coding ty 0 v = false) :
    (wireDecode coding cfg ty dec).1 ≠ none := by
  have length := ty.length_image 0 v image found
  have decodes := decode_decodes accepts ty formed 0 v image found _ _ (holds.inside length)
  unfold wireDecode
  rw [allocThen, holds.alloc length]
  exact finish_error (checkConsumed_error (decodes.fails deep))

end

section

variable {coding : Coding} {sender : WireEncoder.Config} {cfg : Config} {ty : Ty}
  {v : ty.Value} {memory : Memory} (limits : WireEncodeHandles.Limits) {handleCapacity : Nat}
  {iovecs : List WireEncoder.Iovec} {handles : List Handle} {after : WireEncoder.Encoder}
  {message : List UInt8} {base : Nat}

/-- What `WireEncode` returned, where it was received. -/
lemma wireEncode_received (formed : ty.WellFormed) (few : handleCapacity ≤ 64)
    (encoded : WireEncoder.wireEncode coding sender ty v { limits with memory, handleCapacity } =
      (.ok iovecs handles, after))
    (sent : message = WireEncoder.gather after.memory iovecs)
    (small : ∀ image ∈ ty.image coding 0 v, image.place.outOfLine.length < 2 ^ 32)
    (positive : 0 < base) (addr : base + message.length < 2 ^ 64) :
    ∃ image, ty.image coding 0 v = some image ∧ message.length = image.place.outOfLine.length ∧
      handles = image.handles ∧
      Holds base { base, size := message.length, memory := ofBytes message, handles } 0
        image.place := by
  obtain ⟨_, sends⟩ := WireEncodeImage.wireEncode_sends formed v
  obtain ⟨image, found, same, -, bytes⟩ := sends encoded
  have small := small image found
  obtain ⟨room, present⟩ := WireEncodeHandles.wireEncode_handles encoded
  rw [bytes small] at sent
  subst sent same
  refine ⟨image, found, rfl, rfl, ⟨rfl, positive, addr, small, ?_, present⟩, rfl, rfl,
    load_ofBytes, Nat.le_refl 0, ?_, Nat.dvd_zero 8, prefix_rfl⟩
  · exact Nat.lt_of_le_of_lt (Nat.le_trans room few) (by decide)
  · exact Nat.le_of_eq (Nat.zero_add _)

/-- If `WireEncode` succeeds, then `WireDecode` of its bytes and handles succeeds
with an object that reads as the value, exactly if the depth limit allows the
value as the decoder counts depths. -/
theorem wireDecode_wireEncode_iff (wellFormed : ty.WellFormed) (few : handleCapacity ≤ 64)
    (encoded : WireEncoder.wireEncode coding sender ty v { limits with memory, handleCapacity } =
      (.ok iovecs handles, after))
    (sent : message = WireEncoder.gather after.memory iovecs)
    (small : ∀ image ∈ ty.image coding 0 v, image.place.outOfLine.length < 2 ^ 32)
    (accepts : ∀ attrs index, cfg.processHandle attrs index = .unchanged)
    (positive : 0 < base) (address : base + message.length < 2 ^ 64) :
    let outcome := wireDecode coding cfg ty
      { base, size := message.length, memory := ofBytes message, handles }
    (outcome.1 = none ∧ Ty.view base ty outcome.2.memory 0 = Ty.normalise ty v) ↔
      Ty.shallow coding ty 0 v = true := by
  intro outcome
  obtain ⟨image, found, size, array, holds⟩ :=
    wireEncode_received limits wellFormed few encoded sent small positive address
  constructor
  · intro decoded
    by_contra deep
    rw [Bool.not_eq_true] at deep
    exact wireDecode_of_deep accepts wellFormed found holds deep decoded.1
  · exact wireDecode_of_shallow accepts wellFormed found holds rfl size array

end

/-- A struct of a vector of bytes and a table with a handle. -/
def letter : Ty :=
  .struct (.cons (.vector (.primitive 1) 16 false) 0
    (.cons (.table (.field (.handle ⟨0, 0⟩ false) .nil)) 0 .nil)) []

lemma letter_wellFormed : letter.WellFormed :=
  ⟨⟨Nat.one_pos, ⟨trivial, trivial⟩, trivial⟩, Nat.succ_pos _, nofun, nofun, fun off gap => by
    simp [Members.gapAt] at gap⟩

/-- It comes through. -/
theorem wireDecode_wireEncode_iff_struct :
    let coding : Coding := ⟨false, 2, fun _ => true, rfl⟩
    let value : letter.Value := (some [#v[1], #v[2], #v[3]], some (some (7 : Handle), []), ())
    let encoded := WireEncoder.wireEncode coding { processHandle := fun _ _ => none } letter value
      { iovecCapacity := 1, handleCapacity := 1, capacity := 64, memory := fun _ => 0 }
    let message := WireEncoder.gather encoded.2.memory [.backing 0 48]
    let outcome := wireDecode coding { processHandle := fun _ _ => .unchanged } letter
      { base := 4096, size := message.length, memory := ofBytes message, handles := [7] }
    (outcome.1 = none ∧ Ty.view 4096 letter outcome.2.memory 0 = Ty.normalise letter value) ↔
      Ty.shallow coding letter 0 value = true :=
  wireDecode_wireEncode_iff ⟨64, 1⟩ letter_wellFormed (by decide)
    (Prod.ext (by decide +kernel) rfl) rfl (by decide +kernel) (fun _ _ => rfl) (by decide)
    (by decide)

/-- Vectors of one element inside each other, the innermost one empty. -/
def nested : Nat → Ty
  | 0 => .vector (.primitive 1) 1 false
  | levels + 1 => .vector (nested levels) 1 false

def nestedValue : (levels : Nat) → (nested levels).Value
  | 0 => some []
  | levels + 1 => some [nestedValue levels]

/-- The request of a method with one such argument. -/
def request (levels : Nat) : Ty :=
  .struct (.cons (nested levels) 0 .nil) []

lemma nested_wellFormed : (levels : Nat) → (nested levels).WellFormed
  | 0 => Nat.one_pos
  | levels + 1 => nested_wellFormed levels

lemma request_wellFormed : (request levels).WellFormed := by
  refine ⟨⟨nested_wellFormed levels, trivial⟩, ?_, nofun, nofun, ?_⟩
  · exact Nat.le_trans ((nested levels).inlineSize_pos (nested_wellFormed levels)) (Nat.le_add_right ..)
  · intro _ gap
    simp [Members.gapAt] at gap

/-- An empty vector at the depth limit is encoded, but is refused by the decoder. -/
theorem wireDecode_refuses_empty_vector :
    let coding : Coding := ⟨true, 2, fun _ => true, rfl⟩
    let encoded := WireEncoder.wireEncode coding { processHandle := fun _ _ => none } (request 32)
      (nestedValue 32, ())
      { iovecCapacity := 1, handleCapacity := 0, capacity := 1024, memory := fun _ => 0 }
    let message := WireEncoder.gather encoded.2.memory [.backing 0 528]
    encoded.1 = .ok [.backing 0 528] [] ∧ message.length = 528 ∧
      (wireDecode coding { processHandle := fun _ _ => .unchanged } (request 32)
        { base := 4096, size := message.length, memory := ofBytes message, handles := [] }).1 ≠
          none := by
  intro coding encoded message
  have succeeded : encoded.1 = .ok [.backing 0 528] [] := by decide +kernel
  have length : message.length = 528 := by
    simp [message, WireEncoder.gather, WireEncoder.Iovec.bytes]
  refine ⟨succeeded, length, ?_⟩
  obtain ⟨_, found, -, -, holds⟩ := wireEncode_received ⟨1024, 1⟩
    (request_wellFormed) (Nat.zero_le 64) (Prod.ext succeeded rfl) rfl (by decide +kernel)
    (show 0 < 4096 by decide)
    (show 4096 + message.length < 2 ^ 64 by omega)
  exact wireDecode_of_deep (fun _ _ => rfl) (request_wellFormed) found holds (by decide +kernel)

end FuchsiaSdk.WireRoundTrip
