import FuchsiaSdk.WireRoundTrip

/-! What a decoding without an error has consumed: for each object its inline
part, the objects out of line and some of the handles. The object it leaves holds
these handles except those of skipped envelopes, and if no envelope was skipped
then what was consumed is the image of its value. -/
namespace FuchsiaSdk.WireAccepted
open Memory WireFormat WireDecoder WireObject WireEncodeHandles WireRoundTrip
open List hiding after count

mutual

/-- Whether no envelope without a decode function is present: such an envelope is
left in the object as it was received. -/
def Ty.known : (ty : Ty) → ty.Value → Bool
  | .array element _, v => (Vector.toList v).all (Ty.known element)
  | .vector element _ _, v => (Option.getD v []).all (Ty.known element)
  | .box inner, v => (Option.toList v).all (Ty.known inner)
  | .struct members _, v => Members.known members v
  | .table fields, v => Fields.known fields v
  | _, _ => true

def Members.known : (members : Members) → members.Value → Bool
  | .nil, _ => true
  | .cons ty _ rest, v => Ty.known ty v.1 && Members.known rest v.2

def Fields.known : (fields : Fields) → fields.Value → Bool
  | .nil, more => List.all more fun raw => decide (raw = absentRaw)
  | .reserved _, none => true
  | .reserved rest, some v => decide (v.1 = absentRaw) && Fields.known rest v.2
  | .field _ _, none => true
  | .field ty rest, some v =>
    (Option.toList v.1).all (Ty.known ty) && Fields.known rest v.2

end

/-! ## What was consumed -/

/-- The decoder has met no error and is within its buffers. -/
structure Ready (base : Nat) (dec : Decoder) : Prop where
  error : dec.error = none
  start : dec.base = base
  positive : 0 < base
  address : base + dec.size < 2 ^ 64
  next : dec.next ≤ dec.size
  aligned : 8 ∣ dec.next
  index : dec.index ≤ dec.handles.length

/-- The entries of a list from one index to another. -/
def window {α : Type} (list : List α) (start stop : Nat) : List α :=
  (list.drop start).take (stop - start)

/-- What was consumed from one state to the other for an object of some size. The
handles are what the handle array has in their places afterwards. -/
def consumed (before after : Decoder) (pos size : Nat) : Image where
  inline := load before.memory pos size
  outOfLine := load before.memory before.next (after.next - before.next)
  handles := window after.handles before.index after.index

/-- From one state of the decoder to the other an object was decoded without an
error; its memory and what was consumed for it satisfy a condition. -/
structure Accepts (base : Nat) (before after : Decoder) (pos size : Nat)
    (condition : Memory → Image → Prop) : Prop where
  ready : Ready base after
  buffer : after.size = before.size
  array : after.handles.length = before.handles.length
  next : before.next ≤ after.next
  index : before.index ≤ after.index
  frame : ∀ address, address < pos ∨ pos + size ≤ address →
    address < before.next ∨ after.next ≤ address → after.memory address = before.memory address
  others : ∀ index, index < before.index ∨ after.index ≤ index →
    after.handles[index]? = before.handles[index]?
  view : ∀ memory, AgreeOn pos (pos + size) memory after.memory →
    AgreeOn before.next after.next memory after.memory →
    condition memory (consumed before after pos size)

section

variable {α : Type} {first second : List α} {start middle stop : Nat}

private lemma window_congr (same : ∀ index, start ≤ index → index < stop → first[index]? = second[index]?) :
    window first start stop = window second start stop := by
  apply ext_getElem?
  intro index
  simp only [window, getElem?_take, getElem?_drop]
  split
  · exact same _ (by omega) (by omega)
  · rfl

private lemma window_append (low : start ≤ middle) (high : middle ≤ stop) :
    window list start stop = window list start middle ++ window list middle stop := by
  have split : stop - start = (middle - start) + (stop - middle) := by omega
  rw [window, split, take_add, drop_drop, Nat.add_sub_cancel' low]
  rfl

private lemma length_window (inside : stop ≤ list.length) : (window list start stop).length = stop - start := by
  simp only [window, length_take, length_drop]
  omega

@[simp] lemma window_self : window list start start = [] := by
  simp [window]

end

section

variable {base : Nat} {before middle after dec : Decoder} {pos size size' : Nat}
  {condition condition' : Memory → Image → Prop} {bytes : List UInt8}

private lemma consumed_self : consumed dec dec pos size = { inline := load dec.memory pos size } := by
  simp [consumed, load]

@[simp] lemma length_inline_consumed :
    (consumed before after pos size).inline.length = size :=
  length_load ..

@[simp] lemma length_outOfLine_consumed :
    (consumed before after pos size).outOfLine.length = after.next - before.next :=
  length_load ..

section

variable (accepts : Accepts base before after pos size condition)
include accepts

lemma Accepts.length_handles : (consumed before after pos size).handles.length = after.index - before.index :=
  length_window accepts.ready.index

lemma Accepts.now : condition after.memory (consumed before after pos size) :=
  accepts.view after.memory (fun _ _ _ => rfl) fun _ _ _ => rfl

lemma Accepts.mono (weaker : ∀ memory, condition memory (consumed before after pos size) →
      condition' memory (consumed before after pos size)) : Accepts base before after pos size condition' :=
  { accepts with view := fun memory here there => weaker memory (accepts.view memory here there) }

end

/-- Two objects after each other. -/
lemma Accepts.append (one : Accepts base before middle pos size condition)
    (two : Accepts base middle after (pos + size) size' condition')
    (inside : pos + size + size' ≤ before.next) :
    Accepts base before after pos (size + size') fun memory image =>
      ∃ left right, image = left ++ right ∧ left = consumed before middle pos size ∧
        right = consumed middle after (pos + size) size' ∧
        condition memory left ∧ condition' memory right := by
  have next := one.next
  have next' := two.next
  have index := one.index
  have index' := two.index
  refine ⟨two.ready, two.buffer.trans one.buffer, two.array.trans one.array, by omega, by omega,
    ?_, ?_, ?_⟩
  · intro addr _ apart
    rw [two.frame addr (by omega) (by omega), one.frame addr (by omega) (by omega)]
  · intro place apart
    rw [two.others place (by omega), one.others place (by omega)]
  · intro memory here there
    refine ⟨_, _, ?_, rfl, rfl, ?_, ?_⟩
    · have split : after.next - before.next =
          (middle.next - before.next) + (after.next - middle.next) := by omega
      simp only [consumed, split, load_add, Nat.add_sub_cancel' next]
      congr 1
      · congr 1
        exact load_congr fun addr low high => (one.frame addr (by omega) (by omega)).symm
      · congr 1
        exact load_congr fun addr low high => (one.frame addr (by omega) (by omega)).symm
      · rw [window_append index index']
        congr 1
        exact window_congr fun place _ high => two.others place (.inl high)
    · refine one.view memory (fun addr low high => ?_) fun addr low high => ?_
      · rw [here addr low (by omega)]
        exact two.frame addr (by omega) (by omega)
      · rw [there addr low (by omega)]
        exact two.frame addr (by omega) (by omega)
    · exact two.view memory (here.mono (by omega) (by omega)) (there.mono (by omega) (by omega))

/-- Bytes that are left as they are. -/
lemma Ready.idle (ready : Ready base dec) (pos size : Nat) :
    Accepts base dec dec pos size fun memory image =>
      image = { inline := load dec.memory pos size } ∧
        load memory pos size = load dec.memory pos size :=
  ⟨ready, rfl, rfl, le_rfl, le_rfl, fun _ _ _ => rfl, fun _ _ => rfl,
    fun _ here _ => ⟨consumed_self .., load_congr here⟩⟩

lemma Ready.write (ready : Ready base dec) (pos : Nat) (length : bytes.length = size) :
    Accepts base dec (dec.write pos bytes) pos size fun memory image =>
      image = { inline := load dec.memory pos size } ∧
        load memory pos size = bytes := by
  refine ⟨{ ready with }, rfl, rfl, le_rfl, le_rfl, ?_, fun _ _ => rfl, ?_⟩
  · intro _ _ _
    exact store_outside (by omega)
  · intro memory here _
    refine ⟨by simp [consumed, Decoder.write, load], (load_congr here).trans ?_⟩
    exact load_store_of_length length

/-! ## Objects out of line -/

lemma zeros_of_any (clean : ¬bytes.any (· ≠ 0) = true) : bytes = replicate bytes.length 0 := by
  refine eq_replicate_of_mem fun byte mem => ?_
  by_contra wrong
  exact clean (any_eq_true.mpr ⟨byte, mem, by simpa using wrong⟩)

lemma setError_ne_none (dec : Decoder) (error : CodingError) : (dec.setError error).error ≠ none := by
  cases found : dec.error <;> simp [Decoder.setError, found]

/-- A check has been passed where no error is set. -/
lemma check_sound {failing after : Decoder} [Decidable bad]
    (sound : (if bad then failing.setError error else after).error = none) : ¬bad := by
  intro failed
  rw [if_pos failed] at sound
  exact setError_ne_none _ _ sound

/-- What `Alloc` has checked where it succeeded. -/
structure Allocated (dec : Decoder) (size : Nat) : Prop where
  same : dec.alloc size = (some dec.next, dec.advance (dec.next + align size))
  fits : dec.next + align size ≤ dec.size
  zeros : load dec.memory (dec.next + size) (align size - size) =
    List.replicate (align size - size) 0

lemma Ready.allocated (ready : Ready base dec)
    (sound : (dec.allocThen size body).error = none) : Allocated dec size := by
  have next := ready.next
  by_cases empty : size = 0
  · subst empty
    exact ⟨rfl, next, rfl⟩
  unfold Decoder.allocThen Decoder.alloc at sound
  simp only [if_neg empty, align_add ready.aligned, Nat.add_sub_add_left] at sound
  split at sound
  next failed =>
    split at failed
    · cases failed
      exact absurd sound (setError_ne_none _ _)
    · split at failed <;> cases failed
      exact absurd sound (setError_ne_none _ _)
  next done =>
    split at done
    · cases done
    rename_i fits
    split at done
    · cases done
    rename_i clean
    have zeros := zeros_of_any clean
    rw [length_load] at zeros
    refine ⟨?_, by omega, zeros⟩
    simp only [Decoder.alloc, if_neg empty, align_add ready.aligned, Nat.add_sub_add_left]
    rw [if_neg fits, if_neg clean]

lemma Allocated.then (allocated : Allocated dec size) (body : Nat → Decoder → Decoder) :
    dec.allocThen size body = body dec.next (dec.advance (dec.next + align size)) := by
  rw [Decoder.allocThen, allocated.same]

lemma Ready.advance (ready : Ready base dec) (allocated : Allocated dec size) :
    Ready base (dec.advance (dec.next + align size)) :=
  { ready with next := allocated.fits, aligned := Nat.dvd_add ready.aligned (dvd_align size) }

lemma Allocated.padded (allocated : Allocated dec size) :
    pad (load dec.memory dec.next size) = load dec.memory dec.next (align size) := by
  have above := le_align size
  have split : align size = size + (align size - size) := by omega
  rw [pad, length_load, ← allocated.zeros, ← load_add, ← split]

lemma Accepts.place (pos : Nat) (allocated : Allocated dec size)
    (inside : Accepts base (dec.advance (dec.next + align size)) after dec.next size
      condition) : Accepts base dec after pos 0 fun memory image =>
      ∃ inner, inner = consumed (dec.advance (dec.next + align size)) after dec.next size ∧
        image = inner.place ∧ condition memory inner := by
  have above := le_align size
  have next : dec.next + align size ≤ after.next := inside.next
  refine ⟨inside.ready, inside.buffer, inside.array, by omega, inside.index, ?_, inside.others, ?_⟩
  · intro addr _ _
    refine inside.frame addr (by omega) ?_
    simp only [Decoder.advance]
    omega
  · intro memory _ there
    refine ⟨_, rfl, ?_, ?_⟩
    · have split : after.next - dec.next =
          align size + (after.next - (dec.next + align size)) := by omega
      simp only [consumed, Image.place, Decoder.advance, allocated.padded, split, load_add]
      rfl
    · refine inside.view memory (there.mono le_rfl (by omega)) (there.mono ?_ le_rfl)
      simp only [Decoder.advance]
      omega

/-- The decoder where the body of an object out of line is decoded. -/
def entered (dec : Decoder) (pos size : Nat) : Decoder :=
  (dec.point pos dec.next).advance (dec.next + align size)

lemma Ready.enter (ready : Ready base dec) (run : Nat → Decoder → Decoder)
    (sound : (dec.allocThen size fun body dec =>
      run body (dec.point pos body)).error = none) : Ready base (entered dec pos size) ∧
      dec.next + size ≤ (entered dec pos size).next ∧
      (run dec.next (entered dec pos size)).error = none := by
  have allocated := ready.allocated sound
  rw [allocated.then] at sound
  exact ⟨{ ready.advance allocated with }, Nat.add_le_add_left (le_align size) _, sound⟩

/-- A pointer and the object out of line that it refers to. -/
lemma Ready.refer (ready : Ready base dec) (run : Nat → Decoder → Decoder)
    (below : pos + 8 ≤ dec.next) (sound : (dec.allocThen size fun body dec =>
      run body (dec.point pos body)).error = none) (inside : Accepts base (entered dec pos size)
      (run dec.next (entered dec pos size)) dec.next size condition) : Accepts base dec
      (dec.allocThen size fun body dec => run body (dec.point pos body)) pos 8 fun memory image =>
        ∃ inner, inner = consumed (entered dec pos size)
            (run dec.next (entered dec pos size)) dec.next size ∧
          image = { inline := load dec.memory pos 8 } ++ inner.place ∧
          word memory pos 8 = base + dec.next ∧ condition memory inner := by
  have allocated := ready.allocated sound
  have fits := allocated.fits
  have addr := ready.address
  rw [allocated.then]
  have header := ready.write pos (length_littleEndian 8 (dec.base + dec.next))
  have moved : Allocated (dec.point pos dec.next) size := by
    have agree : load (dec.point pos dec.next).memory (dec.next + size)
        (align size - size) = load dec.memory (dec.next + size) (align size - size) := by
      refine load_congr fun addr low high => store_outside ?_
      rw [length_littleEndian]
      omega
    have zeros := agree.trans allocated.zeros
    refine ⟨?_, fits, zeros⟩
    by_cases empty : size = 0
    · subst empty
      rfl
    have start : (dec.point pos dec.next).next = dec.next := rfl
    have stop : ¬dec.next + align size > (dec.point pos dec.next).size :=
      Nat.not_lt.mpr fits
    simp only [Decoder.alloc, if_neg empty, start, align_add ready.aligned, Nat.add_sub_add_left]
    rw [if_neg stop, zeros, if_neg (by simp)]
  refine (header.append (Accepts.place (pos + 8) moved inside) (by omega)).mono ?_
  rintro memory ⟨_, _, same, -, -, ⟨rfl, ptr⟩, inner, rfl, rfl, held⟩
  refine ⟨_, rfl, same, ?_, held⟩
  refine word_of_load ?_ (ready.start ▸ ptr)
  omega

end

/-! ## Coding traits -/

/-- A value with these handles and this expected image stands for what was
consumed. -/
structure Describes (handles : List Handle) (known : Bool) (expected : Option Image)
    (taken : Image) : Prop where
  handles : handles = taken.handles.filter (· != 0)
  image : known = true → expected = some taken
  present : known = true → ∀ handle ∈ taken.handles, handle ≠ 0

/-- What is decoded without an error reads as a value that stands for what was
consumed. -/
structure Accepting {α : Type} (base stride : Nat) (decode : Nat → Decoder → Decoder)
    (view : Memory → Nat → α) (handles : α → List Handle) (known : α → Bool)
    (expected : α → Option Image) : Prop where
  sticky : ∀ pos dec, Sticky dec (decode pos dec)
  accepts : ∀ pos dec, Ready base dec → pos + stride ≤ dec.next → (decode pos dec).error = none →
    ∃ v, Accepts base dec (decode pos dec) pos stride fun memory image =>
      view memory pos = v ∧ Describes (handles v) (known v) (expected v) image

section

variable (base : Nat) (coding : Coding) (cfg : Config)

/-- What is decoded without an error stands for what was consumed. -/
def TypeAccepts (ty : Ty) (depth : Nat) : Prop :=
  ∀ pos dec, Ready base dec → pos + ty.inlineSize ≤ dec.next →
    (Ty.decode coding cfg ty depth pos dec).error = none →
    ∃ v : ty.Value, Accepts base dec
      (Ty.decode coding cfg ty depth pos dec) pos ty.inlineSize
      fun memory image => Ty.view base ty memory pos = v ∧
        Describes (Ty.handles ty v) (Ty.known ty v) (ty.image coding depth v) image

/-- The members of a struct, the padding of which is zero. -/
def MembersAccept (members : Members) (depth : Nat) : Prop :=
  ∀ pos dec, Ready base dec → pos + members.size ≤ dec.next →
    (∀ off, members.gapAt off = true → dec.memory (pos + off) = 0) →
    (Members.decode coding cfg members depth pos dec).error = none →
    ∃ v : members.Value, Accepts base dec
      (Members.decode coding cfg members depth pos dec) pos members.size
      fun memory image => Members.view base members memory pos = v ∧
        Describes (Members.handles members v) (Members.known members v)
          (members.image coding depth v) image

/-- The envelopes of a table. -/
def FieldsAccept (fields : Fields) (depth : Nat) : Prop :=
  ∀ count pos dec, Ready base dec → pos + 8 * count ≤ dec.next →
    (Fields.decode coding cfg fields depth count pos dec).error = none →
    ∃ v : fields.Value, fields.count v = count ∧ Accepts base dec
      (Fields.decode coding cfg fields depth count pos dec) pos (8 * count)
      fun memory image => Fields.view base fields memory count pos = v ∧
        Describes (Fields.handles fields v) (Fields.known fields v)
          (fields.image coding depth v) image

end

section

variable {handles handles' : List Handle} {known known' : Bool}
  {expected expected' : Option Image} {image image' : Image}

lemma Describes.bytes (known : Bool) (bytes : List UInt8) :
    Describes [] known (some { inline := bytes }) { inline := bytes } :=
  ⟨rfl, fun _ => rfl, nofun⟩

lemma Describes.append (one : Describes handles known expected image)
    (two : Describes handles' known' expected' image') :
    Describes (handles ++ handles') (known && known') (join expected expected') (image ++ image') := by
  refine ⟨?_, fun both => ?_, fun both handle mem => ?_⟩
  · rw [Image.handles_append, filter_append, one.handles, two.handles]
  · obtain ⟨here, there⟩ := Bool.and_eq_true_iff.mp both
    rw [one.image here, two.image there]
    rfl
  · obtain ⟨here, there⟩ := Bool.and_eq_true_iff.mp both
    rcases mem_append.mp mem with left | right
    · exact one.present here handle left
    · exact two.present there handle right

lemma Describes.place (inner : Describes handles known expected image) :
    Describes handles known (expected.map Image.place) image.place :=
  ⟨inner.handles, fun fine => by rw [inner.image fine]; rfl, inner.present⟩

/-- Bytes before an object out of line. -/
lemma Describes.refer (inner : Describes handles known expected image) (bytes : List UInt8) :
    Describes handles known (join (some { inline := bytes }) (expected.map Image.place))
      ({ inline := bytes } ++ image.place) := by
  have all := (Describes.bytes true bytes).append inner.place
  rwa [nil_append] at all

end

section

variable {base : Nat} {before middle after dec : Decoder} {pos size stride depth : Nat}
  {α : Type} {coding : Coding} {cfg : Config} {optional : Bool}
  {decode : Nat → Decoder → Decoder} {view : Memory → Nat → α} {handles : α → List Handle}
  {known : α → Bool} {expected : α → Option Image}

lemma TypeAccepts.accepting (accepts : TypeAccepts base coding cfg ty depth) :
    Accepting base ty.inlineSize (Ty.decode coding cfg ty depth) (Ty.view base ty)
      (Ty.handles ty) (Ty.known ty) (ty.image coding depth) :=
  ⟨(sticky_respected cfg).decode ty depth, accepts⟩

lemma Sticky.sound (sticky : Sticky before after) (sound : after.error = none) : before.error = none := by
  by_contra failed
  have error := sticky (Option.isSome_iff_ne_none.mpr failed)
  rw [sound] at error
  cases error

lemma accepts_each (cfg : Config) (accepting : Accepting base stride decode view handles known expected)
    (ready : Ready base dec) (below : pos + count * stride ≤ dec.next)
    (sound : (decodeEach decode stride count pos dec).error = none) :
    ∃ values : List α, values.length = count ∧ Accepts base dec (decodeEach decode stride count pos dec) pos
        (count * stride) fun memory image =>
          viewEach view stride memory count pos = values ∧
            Describes (values.flatMap handles) (values.all known) (imageEach expected values) image := by
  induction count generalizing pos dec with
  | zero =>
    refine ⟨[], rfl, ?_⟩
    rw [Nat.zero_mul]
    refine (ready.idle pos 0).mono ?_
    rintro memory ⟨same, -⟩
    rw [same]
    exact ⟨rfl, Describes.bytes _ _⟩
  | succ count ih =>
    rw [Nat.succ_mul] at below
    have middle : (decode pos dec).error = none :=
      Sticky.sound ((sticky_respected cfg).each accepting.sticky stride count _ _) sound
    obtain ⟨v, one⟩ := accepting.accepts pos dec ready (by omega) middle
    have next := one.next
    obtain ⟨rest, length, more⟩ := ih one.ready (by omega) sound
    refine ⟨v :: rest, by rw [length_cons, length], ?_⟩
    rw [Nat.succ_mul, Nat.add_comm (count * stride) stride]
    refine (one.append more (by omega)).mono ?_
    rintro memory ⟨_, _, same, -, -, ⟨here, first⟩, there, others⟩
    rw [same, viewEach, here, there]
    exact ⟨rfl, first.append others⟩

lemma deeper_sound (sound : (dec.deeper coding depth diff body).error = none) :
    ∃ inner, coding.add depth diff = some inner ∧ dec.deeper coding depth diff body = body inner dec := by
  unfold Decoder.deeper at sound ⊢
  cases added : coding.add depth diff with
  | none =>
    rw [added] at sound
    exact absurd sound (setError_ne_none _ _)
  | some inner => exact ⟨inner, rfl, rfl⟩

lemma load_of_word (found : word memory pos width = v) :
    load memory pos width = littleEndian width v := by
  rw [← found]
  have inverse := littleEndian_ofLittleEndian (load memory pos width)
  rw [length_load] at inverse
  exact inverse.symm

/-- What the header of a vector says. -/
private lemma decodePrework_cases (done : decodePrework pos optional limit dec = (present, after)) :
    (∃ error, present = false ∧ after = dec.setError error) ∨ after = dec ∧ word dec.memory pos 8 ≤ limit ∧
        (present = true ∧ word dec.memory (pos + 8) 8 = allocPresent ∨
          present = false ∧ optional = true ∧ word dec.memory pos 8 = 0 ∧
            word dec.memory (pos + 8) 8 = allocAbsent) := by
  unfold decodePrework at done
  simp only at done
  split at done
  · cases done
    exact .inl ⟨_, rfl, rfl⟩
  rename_i beyond
  split at done
  · cases done
    exact .inl ⟨_, rfl, rfl⟩
  split at done
  next marked =>
    cases done
    exact .inr ⟨rfl, Nat.le_of_not_lt beyond, .inl ⟨rfl, marked⟩⟩
  split at done
  next absent =>
    cases allowed : optional with
    | false =>
      rw [allowed] at done
      cases done
      exact .inl ⟨_, rfl, rfl⟩
    | true =>
      rw [allowed] at done
      by_cases empty : word dec.memory pos 8 = 0
      · rw [if_neg (not_not_intro empty)] at done
        cases done
        exact .inr ⟨rfl, Nat.le_of_not_lt beyond, .inr ⟨rfl, rfl, empty, absent⟩⟩
      · rw [if_pos empty] at done
        cases done
        exact .inl ⟨_, rfl, rfl⟩
  · cases done
    exact .inl ⟨_, rfl, rfl⟩

/-- The images of vectors, null ones included. -/
def vectorExpected (coding : Coding) (expected : Nat → α → Option Image) (limit : Nat)
    (optional : Bool) (depth : Nat) : Option (List α) → Option Image
  | none => some (nullVectorImage optional)
  | some values => vectorImage coding expected limit values depth

private lemma vectorImage_eq {expected : Nat → α → Option Image} {inner : Nat}
    (within : values.length ≤ limit) (added : coding.add depth 1 = some inner) :
    vectorImage coding expected limit values depth =
      join (some { inline := vectorHeader values.length allocPresent })
        ((imageEach (expected inner) values).map Image.place) := by
  unfold vectorImage
  rw [if_neg (Nat.not_lt.mpr within)]
  cases values with
  | nil => rfl
  | cons => rw [if_neg (cons_ne_nil _ _), added, Option.bind_some]

/-- The elements of a vector that is present. -/
private lemma accepts_elements (cfg : Config)
    (accepting : Accepting base stride decode view handles known expected)
    (skips : compatible = true → ∀ pos dec, decode pos dec = dec)
    (ready : Ready base dec) (below : pos + 16 ≤ dec.next)
    (marked : word dec.memory (pos + 8) 8 = allocPresent)
    (sound : (decodeElements compatible decode stride pos dec).error = none) :
    ∃ values : List α, values.length = word dec.memory pos 8 ∧ Accepts base dec
      (decodeElements compatible decode stride pos dec) pos 16 fun memory image =>
        viewVector base view stride memory pos = some values ∧
          Describes (values.flatMap handles) (values.all known)
            (join (some { inline := vectorHeader values.length allocPresent })
              ((imageEach expected values).map Image.place)) image := by
  generalize counted : word dec.memory pos 8 = count
  have same : decodeElements compatible decode stride pos dec =
      dec.allocThen (count * stride) fun body dec =>
        decodeEach decode stride count body (dec.point (pos + 8) body) := by
    unfold decodeElements
    rw [counted]
    cases kind : compatible with
    | false => rfl
    | true => simp only [if_true, decodeEach_skip (skips kind)]
  rw [same] at sound ⊢
  obtain ⟨moved, room, inside⟩ := ready.enter (decodeEach decode stride count) sound
  obtain ⟨values, length, elements⟩ := accepts_each cfg accepting moved room inside
  refine ⟨values, length, ?_⟩
  have ptr := ready.refer (decodeEach decode stride count) (by omega) sound elements
  refine ((ready.idle pos 8).append ptr (by omega)).mono ?_
  rintro memory ⟨_, _, split, -, -, ⟨rfl, header⟩, _, -, rfl, pointed, read, described⟩
  have header' : word memory pos 8 = count := by
    rw [← counted, word, header, word]
  refine ⟨?_, ?_⟩
  · rw [viewVector, if_neg (by omega), header', pointed, Nat.add_sub_cancel_left, read]
  · have whole := described.refer (vectorHeader values.length allocPresent)
    rw [split, load_of_word counted, load_of_word marked, length]
    rwa [length] at whole

lemma accepts_vector {decode : Nat → Nat → Decoder → Decoder} {expected : Nat → α → Option Image}
    (cfg : Config)
    (accepting : ∀ depth, Accepting base stride (decode depth) view handles known (expected depth))
    (skips : compatible = true → ∀ depth pos dec, decode depth pos dec = dec)
    (ready : Ready base dec) (below : pos + 16 ≤ dec.next)
    (sound : (decodeVector coding compatible decode stride limit optional pos depth
      dec).error = none) : ∃ values : Option (List α), Accepts base dec
      (decodeVector coding compatible decode stride limit optional pos depth dec) pos 16 fun memory image =>
        viewVector base view stride memory pos = values ∧
          Describes ((values.getD []).flatMap handles) ((values.getD []).all known)
            (vectorExpected coding expected limit optional depth values) image := by
  unfold decodeVector at sound ⊢
  rcases prework : decodePrework pos optional limit dec with ⟨_, after⟩
  rw [prework] at sound
  rcases decodePrework_cases prework with ⟨error, rfl, rfl⟩ | ⟨rfl, within, header⟩
  · exact absurd sound (setError_ne_none _ _)
  rcases header with ⟨rfl, marked⟩ | ⟨rfl, rfl, empty, absent⟩
  · simp only at sound ⊢
    obtain ⟨inner, added, run⟩ := deeper_sound sound
    rw [run] at sound ⊢
    obtain ⟨values, length, accepted⟩ := accepts_elements cfg (accepting inner)
      (fun compatible => skips compatible inner) ready below marked sound
    refine ⟨some values, accepted.mono ?_⟩
    rintro memory ⟨read, described⟩
    refine ⟨read, ?_⟩
    rw [vectorExpected, vectorImage_eq (length ▸ within) added]
    exact described
  · refine ⟨none, (ready.idle pos 16).mono ?_⟩
    rintro memory ⟨same, loaded⟩
    have header : load after.memory pos 16 = vectorHeader 0 allocAbsent := by
      rw [show 16 = 8 + 8 from rfl, load_add, load_of_word empty, load_of_word absent]
      rfl
    rw [header] at loaded same
    rw [same, viewVector, (words_vectorHeader (by decide) (by decide) loaded).2]
    exact ⟨rfl, Describes.bytes _ _⟩

/-- The bytes of strings. -/
private lemma accepting_byte : Accepting base 1 (fun _ dec => dec)
    (fun memory pos => memory pos) (fun _ => []) (fun _ => true) (fun byte => some { inline := [byte] }) where
  sticky _ _ := id
  accepts pos dec ready _ _ := by
    refine ⟨dec.memory pos, (ready.idle pos 1).mono ?_⟩
    rintro memory ⟨same, loaded⟩
    rw [same]
    exact ⟨(cons.inj loaded).1, Describes.bytes _ _⟩

/-- What a string that was decoded without an error has passed. -/
private lemma decodeString_sound (sound : (decodeString coding limit optional pos depth dec).error = none) :
    ∃ after, decodeVector coding true (fun _ _ dec => dec) 1 limit optional pos depth dec = after ∧
      decodeString coding limit optional pos depth dec = after ∧ after.error = none ∧
      (word after.memory (pos + 8) 8 ≠ 0 → coding.isValidUtf8 (load after.memory
        (word after.memory (pos + 8) 8 - after.base) (word after.memory pos 8)) = true) := by
  refine ⟨_, rfl, ?_⟩
  unfold decodeString at sound ⊢
  simp only at sound ⊢
  split at sound <;> rename_i null
  · exact ⟨if_pos null, sound, fun present => absurd (sound ▸ null.resolve_left present) nofun⟩
  · split at sound <;> rename_i valid
    · exact ⟨by rw [if_neg null, if_pos valid], sound, fun _ => valid⟩
    · exact absurd sound (setError_ne_none _ _)

private lemma accepts_string (limit : Nat) (optional : Bool) (depth : Nat) :
    TypeAccepts base coding cfg (.string limit optional) depth := by
  intro _ _ ready below sound
  rw [Ty.decode] at ⊢
  obtain ⟨_, body, same, fine, valid⟩ := decodeString_sound sound
  obtain ⟨v, accepted⟩ := accepts_vector cfg (fun _ => accepting_byte)
    (fun _ _ _ _ => rfl) ready below (body ▸ fine)
  rw [body] at accepted
  rw [same]
  have now := accepted.now.1
  refine ⟨v, accepted.mono ?_⟩
  rintro _ ⟨read, described⟩
  have all : (v.getD []).all (fun _ => true) = true := all_eq_true.mpr fun _ _ => rfl
  refine ⟨read, ?_, fun _ => ?_, fun _ => described.present all⟩
  · have none := described.handles
    rwa [flatMap_eq_nil_iff.mpr fun _ _ => rfl] at none
  · have image := described.image all
    cases v with
    | none => exact image
    | some text =>
      obtain ⟨present, loaded⟩ := load_of_view now
      rw [← accepted.ready.start] at loaded
      have correct : coding.isValidUtf8 text = true := loaded ▸ valid present
      rw [Ty.image, if_pos correct]
      exact image

/-- What the check leaves of a handle is stored in the field and in the array. -/
lemma accepts_storeHandle (ready : Ready base dec) (marked : word dec.memory pos 4 = handlePresent)
    (inside : dec.index < dec.handles.length) (present : handle ≠ 0) :
    Accepts base dec (dec.storeHandle pos handle) pos 4 fun memory image =>
      UInt32.ofNat (word memory pos 4) = handle ∧
        Describes ([handle].filter (· != 0)) true (handleImage optional handle) image := by
  have field := ready.write pos (length_littleEndian 4 handle.toNat)
  refine ⟨{ ready with index := ?_ }, rfl, length_set, le_rfl, Nat.le_succ _, field.frame, ?_, ?_⟩
  · simp only [Decoder.storeHandle, Decoder.write, length_set]
    exact inside
  · intro index apart
    refine getElem?_set_ne ?_
    simp only [Decoder.storeHandle] at apart
    omega
  · intro memory here there
    have loaded := (field.view memory here there).2
    have v : word memory pos 4 = handle.toNat := by
      refine word_of_load ?_ loaded
      exact handle.toNat_lt
    have stored : (dec.handles.set dec.index handle)[dec.index]? = some handle :=
      getElem?_set_self inside
    have taken : consumed dec (dec.storeHandle pos handle) pos 4 =
        { inline := littleEndian 4 handlePresent, handles := [handle] } := by
      simp only [consumed, window, Decoder.storeHandle, Decoder.write, Nat.add_sub_cancel_left,
        Nat.sub_self, load_of_word marked]
      rw [take_one, head?_drop, stored]
      rfl
    refine ⟨by rw [v]; simp, ?_, fun _ => ?_, fun _ => ?_⟩
    · rw [taken]
    · rw [taken, handleImage, if_neg present]
    · rw [taken]
      intro _ mem
      rwa [mem_singleton.mp mem]

private lemma accepts_handle (fresh : Fresh cfg.processHandle) (attrs : HandleAttributes)
    (optional : Bool) (depth : Nat) : TypeAccepts base coding cfg (.handle attrs optional) depth := by
  intro pos dec ready _ sound
  rw [Ty.decode] at sound ⊢
  unfold Decoder.decodeHandle at sound ⊢
  by_cases marked : word dec.memory pos 4 = handlePresent
  · rw [if_pos marked] at sound ⊢
    cases found : dec.handles[dec.index]? with
    | none =>
      rw [found] at sound
      exact absurd sound (setError_ne_none _ _)
    | some handle =>
      rw [found] at sound
      simp only at sound ⊢
      obtain ⟨inside, -⟩ := List.getElem?_eq_some_iff.mp found
      have null := check_sound sound
      rw [if_neg null] at sound ⊢
      cases check : cfg.processHandle attrs dec.index with
      | unchanged => exact ⟨handle, accepts_storeHandle ready marked inside null⟩
      | replaced successor =>
        exact ⟨successor, accepts_storeHandle ready marked inside (fresh _ _ _ check)⟩
      | refused =>
        rw [check] at sound
        exact absurd sound (setError_ne_none _ _)
  · rw [if_neg marked] at sound ⊢
    by_cases absent : word dec.memory pos 4 = handleAbsent
    · rw [if_pos absent] at sound ⊢
      cases optional with
      | false => exact absurd sound (setError_ne_none _ _)
      | true =>
        refine ⟨(0 : Handle), (ready.idle pos 4).mono ?_⟩
        rintro memory ⟨same, loaded⟩
        rw [load_of_word absent] at same loaded
        rw [same, Ty.view, word_of_load (by decide) loaded]
        exact ⟨rfl, Describes.bytes _ _⟩
    · rw [if_neg absent] at sound
      exact absurd sound (setError_ne_none _ _)

private lemma accepts_box {inner : Ty} (accepts : ∀ depth, TypeAccepts base coding cfg inner depth)
    (depth : Nat) : TypeAccepts base coding cfg (.box inner) depth := by
  intro pos dec ready below sound
  have positive := ready.positive
  rw [Ty.decode, decodeBox] at sound ⊢
  by_cases marked : word dec.memory pos 8 = allocPresent
  · rw [if_pos marked] at sound ⊢
    obtain ⟨depth, added, run⟩ := deeper_sound sound
    rw [run] at sound ⊢
    obtain ⟨moved, room, inside⟩ := ready.enter (Ty.decode coding cfg inner depth) sound
    obtain ⟨v, object⟩ := accepts depth _ _ moved room inside
    refine ⟨some v, (ready.refer (Ty.decode coding cfg inner depth) below sound object).mono ?_⟩
    rintro memory ⟨image, -, split, pointed, read, described⟩
    refine ⟨?_, ?_⟩
    · rw [Ty.view, viewBox, if_neg (by omega), pointed, Nat.add_sub_cancel_left, read]
    · rw [split, load_of_word marked, Ty.image, added]
      simpa [Ty.handles, Ty.known] using described.refer (littleEndian 8 allocPresent)
  · rw [if_neg marked] at sound ⊢
    by_cases absent : word dec.memory pos 8 = allocAbsent
    · rw [if_pos absent] at ⊢
      refine ⟨none, (ready.idle pos 8).mono ?_⟩
      rintro memory ⟨same, loaded⟩
      rw [load_of_word absent] at same loaded
      rw [same, Ty.view, viewBox, word_of_load (by decide) loaded]
      exact ⟨rfl, Describes.bytes _ _⟩
    · rw [if_neg absent] at sound
      exact absurd sound (setError_ne_none _ _)

/-! ## Envelopes -/

/-- The checks after the object of an envelope. -/
lemma checked_sound [Decidable first] [Decidable second] (sound : (if first then after.setError error
      else if second then after.setError error' else after).error = none) :
    ¬first ∧ ¬second ∧ (if first then after.setError error
      else if second then after.setError error' else after) = after := by
  have one := check_sound sound
  rw [if_neg one] at sound ⊢
  have two := check_sound sound
  exact ⟨one, two, if_neg two⟩

section

variable (accepting : Accepting base size decode view handles known expected)
  (ready : Ready base dec) (below : pos + 8 ≤ dec.next)
include accepting ready below

private lemma accepts_inlineEnvelope (small : size ≤ inliningSizeThreshold)
    (sound : (decodeEnvelope decode size pos dec).error = none) :
    ∃ v : α, Accepts base dec (decodeEnvelope decode size pos dec) pos 8
      fun memory image => viewEnvelope base view size memory pos = some v ∧
        Describes (handles v) (known v) ((expected v).map (envelopeImage size)) image := by
  have few : size ≤ 4 := small
  unfold decodeEnvelope at sound ⊢
  rw [if_pos small] at sound ⊢
  have flagged := check_sound sound
  rw [if_neg flagged] at sound ⊢
  obtain ⟨_, clean, same⟩ := checked_sound sound
  rw [same] at sound ⊢
  rw [not_not] at flagged
  obtain ⟨v, object⟩ := accepting.accepts pos dec ready (by omega) sound
  refine ⟨v, ?_⟩
  generalize decode pos dec = after at *
  have zeros := zeros_of_any clean
  rw [length_load] at zeros
  have frame : ∀ addr, pos + size ≤ addr → addr < pos + 8 →
      after.memory addr = dec.memory addr := by
    intro addr low high
    exact object.frame addr (by omega) (by omega)
  have tail : load after.memory (pos + size) (4 - size + (2 + 2)) =
      replicate (4 - size) 0 ++
        (littleEndian 2 (word dec.memory (pos + 4) 2) ++ littleEndian 2 1) := by
    rw [load_add, load_add, show pos + size + (4 - size) = pos + 4 by omega]
    congr 2
    · rw [← load_of_word rfl]
      exact load_congr fun addr low high => frame addr (by omega) (by omega)
    · rw [← load_of_word flagged]
      exact load_congr fun addr low high => frame addr (by omega) (by omega)
  have whole := object.append (object.ready.idle (pos + size) (4 - size + (2 + 2))) (by omega)
  rw [show size + (4 - size + (2 + 2)) = 8 by omega] at whole
  refine whole.mono ?_
  rintro memory ⟨left, _, split, here, -, ⟨read, described⟩, rfl, loaded⟩
  rw [tail] at loaded split
  have length : left.inline.length = size := by rw [here, length_inline_consumed]
  have counted' : left.handles.length = word dec.memory (pos + 4) 2 := by
    rw [here, object.length_handles]
    omega
  have same' : left.handles ++ [] = left.handles := append_nil _
  refine ⟨?_, ?_, ?_, ?_⟩
  · rw [viewEnvelope, if_pos small, (tail_of_load few loaded).2, if_neg (by decide), read]
  · rw [split, Image.handles_append, same']
    exact described.handles
  · intro fine
    rw [described.image fine, split, ← counted', ← envelopeImage_inline small length]
    rfl
  · rw [split, Image.handles_append, same']
    exact described.present

/-- The checks after an object out of line. -/
def checkCounts (index next : Nat) (after : Decoder) : Decoder :=
  if after.index ≠ index then after.setError .invalidNumHandlesSpecifiedInEnvelope
  else if after.next ≠ next then after.setError .invalidNumBytesSpecifiedInEnvelope
  else after

private lemma accepts_outOfLineEnvelope (large : ¬size ≤ inliningSizeThreshold)
    (sound : (decodeEnvelope decode size pos dec).error = none) :
    ∃ v : α, Accepts base dec (decodeEnvelope decode size pos dec) pos 8
      fun memory image => viewEnvelope base view size memory pos = some v ∧
        Describes (handles v) (known v) ((expected v).map (envelopeImage size)) image := by
  unfold decodeEnvelope at sound ⊢
  rw [if_neg large] at sound ⊢
  have flagged := check_sound sound
  rw [if_neg flagged] at sound ⊢
  rw [not_not] at flagged
  generalize fewer : word dec.memory (pos + 4) 2 = numHandles at sound ⊢
  generalize bytes : word dec.memory pos 4 = numBytes at sound ⊢
  obtain ⟨moved, room, inside⟩ := ready.enter (fun body after =>
    checkCounts (dec.index + numHandles) (dec.next + numBytes) (decode body after)) sound
  obtain ⟨counted, sized, same⟩ := checked_sound inside
  rw [not_not] at counted sized
  have fine : (decode dec.next (entered dec pos size)).error = none := by
    rw [← same]
    exact inside
  obtain ⟨v, object⟩ := accepting.accepts _ _ moved room fine
  refine ⟨v, ?_⟩
  have ptr := ready.refer (fun body after =>
    checkCounts (dec.index + numHandles) (dec.next + numBytes) (decode body after))
    below sound (Eq.symm same ▸ object)
  have ended : (dec.allocThen size fun body after =>
      checkCounts (dec.index + numHandles) (dec.next + numBytes)
        (decode body (after.point pos body))) =
      decode dec.next (entered dec pos size) := by
    rw [(ready.allocated sound).then]
    exact same
  refine ptr.mono ?_
  rintro memory ⟨inner, here, split, pointed, read, described⟩
  have handles' : inner.handles.length = numHandles := by
    have same' := here.trans (congrArg (consumed _ · _ _) same)
    rw [same', object.length_handles, counted]
    exact Nat.add_sub_cancel_left ..
  have length : inner.place.outOfLine.length = numBytes := by
    have total := congrArg (fun image => image.outOfLine.length) split
    simp only [length_outOfLine_consumed, Image.bytes_place] at total
    rw [← total, ended, sized, Nat.add_sub_cancel_left]
  have loaded : load dec.memory pos 8 =
      envelopeHeader (littleEndian 4 inner.place.outOfLine.length) inner.handles.length 0 := by
    rw [show 8 = 4 + 2 + 2 from rfl, load_add, load_add, load_of_word bytes, load_of_word fewer,
      load_of_word flagged, length, handles']
    rfl
  refine ⟨?_, ?_, ?_, ?_⟩
  · rw [viewEnvelope, if_neg large, viewBox, if_neg (by omega), pointed, Nat.add_sub_cancel_left,
      read]
  · rw [split]
    exact described.handles
  · intro known
    rw [described.image known, split, loaded, ← envelopeImage_outOfLine large]
    rfl
  · rw [split]
    exact described.present

private lemma accepts_envelope
    (sound : (decodeOptionalEnvelope (decodeEnvelope decode size) pos dec).error = none) :
    ∃ v : Option α, Accepts base dec (decodeOptionalEnvelope (decodeEnvelope decode size) pos dec) pos 8
      fun memory image => viewEnvelope base view size memory pos = v ∧
        Describes (v.toList.flatMap handles) (v.toList.all known)
          (optionalEnvelopeImage size expected v) image := by
  unfold decodeOptionalEnvelope at sound ⊢
  by_cases unset : word dec.memory pos 8 = 0
  · rw [if_pos unset] at ⊢
    refine ⟨none, (ready.idle pos 8).mono ?_⟩
    rintro memory ⟨same, loaded⟩
    rw [load_of_word unset] at same loaded
    have zero : word memory pos 8 = 0 := word_of_load (by decide) loaded
    have flags : word memory (pos + 6) 2 = 0 := by
      rw [show 8 = 4 + (2 + 2) from rfl, word_add, word_add] at zero
      rw [show pos + 6 = pos + 4 + 2 from rfl]
      omega
    rw [same, viewEnvelope, viewBox, zero, flags]
    exact ⟨by simp, Describes.bytes _ _⟩
  · rw [if_neg unset] at sound ⊢
    obtain ⟨v, accepted⟩ := (em (size ≤ inliningSizeThreshold)).elim
      (accepts_inlineEnvelope accepting ready below · sound)
      (accepts_outOfLineEnvelope accepting ready below · sound)
    refine ⟨some v, accepted.mono ?_⟩
    rintro memory ⟨read, described⟩
    refine ⟨read, ?_⟩
    simpa [optionalEnvelopeImage] using described

end

private lemma length_closed {handles : List Handle} (fits : count ≤ handles.length - index)
    (within : index ≤ handles.length) :
    (handles.take index ++ replicate count 0 ++ handles.drop (index + count)).length = handles.length := by
  simp only [length_append, length_take, length_replicate, length_drop]
  omega

/-- Handles that are closed with an envelope are not in the array afterwards. -/
lemma accepts_close (ready : Ready base dec) (pos size : Nat)
    (sound : (dec.closeNextNHandles count).error = none) :
    Accepts base dec (dec.closeNextNHandles count) pos size fun memory image =>
      image.handles.filter (· != 0) = [] ∧ load memory pos size = load dec.memory pos size := by
  unfold Decoder.closeNextNHandles at ⊢
  have many := check_sound sound
  rw [if_neg many]
  have index := ready.index
  have length := length_closed (Nat.not_lt.mp many) ready.index
  refine ⟨{ ready with index := ?_ }, rfl, length, le_rfl, Nat.le_add_right _ _,
    fun _ _ _ => rfl, ?_, ?_⟩
  · simp only
    omega
  · intro _ apart
    simp only [append_assoc] at apart ⊢
    rcases apart with low | _
    · rw [getElem?_append_left (by rw [length_take]; omega), getElem?_take, if_pos low]
    rw [getElem?_append_right (by rw [length_take]; omega),
      getElem?_append_right (by rw [length_take, length_replicate]; omega),
      getElem?_drop]
    congr 1
    rw [length_take, length_replicate]
    omega
  · intro memory here _
    refine ⟨?_, load_congr here⟩
    have zeros : (consumed dec { dec.closeMany ((dec.handles.drop dec.index).take count) with
        handles := dec.handles.take dec.index ++ replicate count 0 ++
          dec.handles.drop (dec.index + count)
        index := dec.index + count } pos size).handles = replicate count 0 := by
      simp only [consumed, window, Nat.add_sub_cancel_left]
      rw [append_assoc, drop_left' (by rw [length_take]; omega), take_left' length_replicate]
    rw [zeros]
    exact filter_eq_nil_iff.mpr fun handle mem => by
      rw [eq_of_mem_replicate mem]
      decide

/-- The envelopes that have no decode function. -/
lemma accepts_unknown (ready : Ready base dec) (below : pos + 8 ≤ dec.next)
    (sound : (decodeOptionalEnvelope decodeUnknownEnvelope pos dec).error = none) :
    ∃ raw : Envelope, Accepts base dec (decodeOptionalEnvelope decodeUnknownEnvelope pos dec) pos 8
      fun memory image => viewRaw memory pos = raw ∧
        Describes [] (decide (raw = absentRaw)) (some absentEnvelope) image := by
  unfold decodeOptionalEnvelope at sound ⊢
  by_cases unset : word dec.memory pos 8 = 0
  · rw [if_pos unset] at sound ⊢
    refine ⟨absentRaw, (ready.idle pos 8).mono ?_⟩
    rintro memory ⟨same, loaded⟩
    rw [load_of_word unset] at same loaded
    rw [same]
    exact ⟨vector_eq absentRaw loaded (by simp), Describes.bytes _ _⟩
  · rw [if_neg unset] at sound ⊢
    -- The envelope stays as it is, and is not a zero one.
    have raw : ∀ {memory : Memory} {image : Image}, image.handles.filter (· != 0) = [] →
        load memory pos 8 = load dec.memory pos 8 →
        viewRaw memory pos = viewRaw dec.memory pos ∧
          Describes [] (decide (viewRaw dec.memory pos = absentRaw)) (some absentEnvelope)
            image := by
      intro memory image closed loaded
      have skipped : ¬decide (viewRaw dec.memory pos = absentRaw) = true := by
        intro absent
        have zeros := congrArg Vector.toList (of_decide_eq_true absent)
        exact unset (word_of_load (by decide) zeros)
      exact ⟨vector_eq _ loaded (by simp), closed.symm, fun absent => absurd absent skipped,
        fun absent => absurd absent skipped⟩
    refine ⟨viewRaw dec.memory pos, ?_⟩
    unfold decodeUnknownEnvelope at sound ⊢
    by_cases outOfLine : word dec.memory (pos + 6) 2 = 0
    · rw [if_pos outOfLine] at sound ⊢
      have uneven := check_sound sound
      rw [if_neg uneven] at sound ⊢
      have allocated := ready.allocated sound
      rw [allocated.then] at sound ⊢
      have closed := accepts_close (ready.advance allocated) dec.next
        (word dec.memory pos 4) sound
      refine ((ready.idle pos 8).append (closed.place (pos + 8) allocated) below).mono ?_
      rintro memory ⟨_, _, split, -, -, ⟨rfl, loaded⟩, _, -, rfl, closed, -⟩
      rw [split]
      exact raw closed loaded
    · rw [if_neg outOfLine] at sound ⊢
      have wrong := check_sound sound
      rw [if_neg wrong] at sound ⊢
      refine (accepts_close ready pos 8 sound).mono ?_
      rintro memory ⟨closed, loaded⟩
      exact raw closed loaded

private lemma accepts_table {fields : Fields}
    (accepts : ∀ depth, FieldsAccept base coding cfg fields depth) (depth : Nat) :
    TypeAccepts base coding cfg (.table fields) depth := by
  intro pos dec ready below sound
  rw [Ty.inlineSize] at below ⊢
  rw [Ty.decode] at sound ⊢
  unfold decodeTable at sound ⊢
  have unmarked := check_sound sound
  rw [if_neg unmarked] at sound ⊢
  rw [not_not] at unmarked
  have large := check_sound sound
  rw [if_neg large] at sound ⊢
  generalize found : word dec.memory pos 8 = count at sound ⊢
  obtain ⟨moved, room, inside⟩ := ready.enter (fun body dec =>
    dec.deeper coding depth coding.tableDepth fun depth dec =>
      Fields.decode coding cfg fields depth count body dec) sound
  obtain ⟨inner, added, run⟩ := deeper_sound inside
  rw [run] at inside
  obtain ⟨v, counts, object⟩ := accepts inner count _ _ moved room inside
  refine ⟨v, ?_⟩
  have ptr := ready.refer (fun body dec =>
    dec.deeper coding depth coding.tableDepth fun depth dec =>
      Fields.decode coding cfg fields depth count body dec) (by omega) sound
    (Eq.symm run ▸ object)
  refine ((ready.idle pos 8).append ptr (by omega)).mono ?_
  rintro memory ⟨_, _, split, -, -, ⟨rfl, header⟩, image, -, rfl, pointed, read, described⟩
  have header' : word memory pos 8 = count := by
    rw [← found, word, header, word]
  refine ⟨by rw [Ty.view, header', pointed, Nat.add_sub_cancel_left, read], ?_⟩
  have whole := described.refer (vectorHeader count allocPresent)
  rw [split, load_of_word found, load_of_word unmarked]
  rw [vectorHeader_split] at whole
  refine ⟨whole.handles, fun fine => ?_, whole.present⟩
  rw [← whole.image fine]
  simp only [Ty.image, counts, added]
  split
  next none =>
    rw [fields_image_empty fields v (counts.trans none), none]
    rfl
  · rfl

/-! ## Padding -/

lemma and_full (byte : UInt8) : byte &&& 255 = byte := by
  apply UInt8.toNat_inj.mp
  rw [UInt8.toNat_and]
  exact Nat.and_two_pow_sub_one_of_lt_two_pow (n := 8) byte.toNat_lt

/-- The bytes that a check covers are zero. -/
private lemma checkPadding_sound (sound : (dec.checkPadding pos padding).error = none) :
    dec.checkPadding pos padding = dec ∧ ∀ index, padding.mask[index]? = some 255 →
        dec.memory (pos + (padding.offset + index)) = 0 := by
  unfold Decoder.checkPadding at sound ⊢
  have dirty := check_sound sound
  rw [if_neg dirty]
  refine ⟨rfl, fun index selected => ?_⟩
  rw [← and_full (dec.memory _)]
  obtain ⟨inside, -⟩ := List.getElem?_eq_some_iff.mp selected
  have masked : (zipWith (· &&& ·) (load dec.memory (pos + padding.offset)
      padding.mask.length) padding.mask)[index]? =
        some (dec.memory (pos + (padding.offset + index)) &&& 255) := by
    rw [getElem?_zipWith, getElem?_load, if_pos inside, selected, Nat.add_assoc]
  by_contra nonzero
  exact dirty (any_eq_true.mpr ⟨_, mem_of_getElem? masked, by simpa using nonzero⟩)

lemma checkPaddings_sound (sound : (checkPaddings pos paddings dec).error = none) :
    checkPaddings pos paddings dec = dec ∧ ∀ padding ∈ paddings, ∀ index, padding.mask[index]? = some 255 →
        dec.memory (pos + (padding.offset + index)) = 0 := by
  induction paddings with
  | nil => exact ⟨rfl, nofun⟩
  | cons padding rest ih =>
    rw [checkPaddings] at sound ⊢
    have kept := sticky_respected ⟨fun _ _ => .unchanged⟩
    obtain ⟨same, zero⟩ :=
      checkPadding_sound (Sticky.sound (kept.checkPaddings rest) sound)
    rw [same] at sound ⊢
    obtain ⟨same, others⟩ := ih sound
    refine ⟨same, fun other mem index selected => ?_⟩
    rcases mem_cons.mp mem with rfl | mem
    · exact zero index selected
    · exact others other mem index selected

private lemma padding_zero {members : Members} (padded : members.PaddedBy paddings)
    (sound : (checkPaddings pos paddings dec).error = none) (off : Nat)
    (gap : members.gapAt off = true) : dec.memory (pos + off) = 0 := by
  obtain ⟨padding, mem, index, rfl, selected⟩ := padded.complete off gap
  exact (checkPaddings_sound sound).2 padding mem index selected

/-! ## The main induction -/

private lemma accepting_unknown (cfg : Config) :
    Accepting base 8 (decodeOptionalEnvelope decodeUnknownEnvelope) viewRaw (fun _ => [])
      (fun raw => decide (raw = absentRaw)) (fun _ => some absentEnvelope) where
  sticky := (sticky_respected cfg).optionalEnvelope fun _ _ =>
    (sticky_respected cfg).unknownEnvelope
  accepts _ _ ready below sound := accepts_unknown ready below sound

end

section

variable {base : Nat} {coding : Coding} {cfg : Config}
variable {depth : Nat}

private lemma boolByte_of_valid (valid : byte = 0 ∨ byte = 1) : boolByte (decide (byte ≠ 0)) = byte := by
  rcases valid with rfl | rfl <;> rfl

private lemma accepts_primitive (size depth : Nat) : TypeAccepts base coding cfg (.primitive size) depth := by
  intro pos dec ready _ _
  refine ⟨Vector.mk (load dec.memory pos size).toArray (by simp), (ready.idle pos size).mono ?_⟩
  rintro memory ⟨same, loaded⟩
  rw [same]
  exact ⟨vector_eq _ loaded (by simp), Describes.bytes _ _⟩

private lemma accepts_bool (depth : Nat) : TypeAccepts base coding cfg .bool depth := by
  intro pos dec ready _ sound
  simp only [Ty.decode] at sound ⊢
  by_cases valid : dec.memory pos = 0 ∨ dec.memory pos = 1
  · rw [if_pos valid]
    refine ⟨decide (dec.memory pos ≠ 0), (ready.idle pos 1).mono ?_⟩
    rintro memory ⟨same, loaded⟩
    have byte : memory pos = dec.memory pos := (cons.inj loaded).1
    rw [same]
    refine ⟨by rw [Ty.view, byte], rfl, fun _ => ?_, nofun⟩
    simp only [Ty.image, boolByte_of_valid valid]
    rfl
  · rw [if_neg valid] at sound
    exact absurd sound (setError_ne_none _ _)

private lemma accepts_array (formed : element.WellFormed)
    (accepts : TypeAccepts base coding cfg element depth) (count : Nat) :
    TypeAccepts base coding cfg (.array element count) depth := by
  intro pos dec ready below sound
  have each : Ty.decode coding cfg (.array element count) depth pos dec =
      decodeEach (Ty.decode coding cfg element depth) element.inlineSize count pos
        dec := by
    simp only [Ty.decode]
    split
    next compatible => rw [decodeEach_skip (decode_compatible element formed compatible depth)]
    · rfl
  rw [each] at sound ⊢
  rw [Ty.inlineSize, Nat.mul_comm] at below ⊢
  obtain ⟨values, length, accepted⟩ := accepts_each cfg accepts.accepting ready below sound
  refine ⟨Vector.mk values.toArray (by simpa using length), accepted.mono ?_⟩
  rintro _ ⟨read, described⟩
  exact ⟨vector_eq _ read (by simp), described⟩

private lemma accepts_vectorType (element : Ty) (formed : element.WellFormed)
    (accepts : ∀ depth, TypeAccepts base coding cfg element depth) (limit : Nat)
    (optional : Bool) (depth : Nat) : TypeAccepts base coding cfg (.vector element limit optional) depth := by
  intro _ _ ready below sound
  obtain ⟨v, accepted⟩ := accepts_vector cfg (fun depth => (accepts depth).accepting)
    (fun compatible depth => decode_compatible element formed compatible depth)
    ready below sound
  refine ⟨v, accepted.mono ?_⟩
  rintro _ ⟨read, described⟩
  cases v <;> exact ⟨read, described⟩

private lemma accepts_struct (padded : members.PaddedBy paddings)
    (accepts : MembersAccept base coding cfg members depth) :
    TypeAccepts base coding cfg (.struct members paddings) depth := by
  intro pos dec ready below sound
  simp only [Ty.decode] at sound ⊢
  have checked := Sticky.sound
    ((sticky_respected cfg).decodeMembers members depth pos _) sound
  have zero := padding_zero padded checked
  rw [(checkPaddings_sound checked).1] at sound ⊢
  exact accepts pos dec ready below zero sound

private lemma accepts_nil (depth : Nat) : MembersAccept base coding cfg .nil depth := by
  intro pos _ ready _ _ _
  refine ⟨(), (ready.idle pos 0).mono ?_⟩
  rintro _ ⟨same, -⟩
  rw [same]
  exact ⟨rfl, Describes.bytes _ _⟩

private lemma accepts_cons (first : TypeAccepts base coding cfg ty depth)
    (others : MembersAccept base coding cfg rest depth) (gap : Nat) :
    MembersAccept base coding cfg (.cons ty gap rest) depth := by
  intro pos dec ready below zero sound
  rw [Members.size, Nat.add_assoc] at below
  rw [Members.decode] at sound ⊢
  obtain ⟨v, one⟩ := first pos dec ready (by omega)
    (Sticky.sound ((sticky_respected cfg).decodeMembers rest depth _ _) sound)
  generalize Ty.decode coding cfg ty depth pos dec = middle at *
  have next := one.next
  -- The padding after the member is not touched by it.
  have untouched : ∀ off, ty.inlineSize ≤ off → off < ty.inlineSize + (gap + rest.size) →
      middle.memory (pos + off) = dec.memory (pos + off) := by
    intro off low high
    exact one.frame _ (by omega) (by omega)
  have clear : ∀ off, rest.gapAt off = true →
      middle.memory (pos + (ty.inlineSize + gap) + off) = 0 := by
    intro off found
    have bound := rest.gapAt_lt found
    rw [Nat.add_assoc pos, untouched _ (by omega) (by omega)]
    exact zero _ (by rwa [Members.gapAt_rest])
  obtain ⟨values, more⟩ := others (pos + (ty.inlineSize + gap)) middle one.ready (by omega)
    clear sound
  have zeros : load middle.memory (pos + ty.inlineSize) gap = replicate gap 0 := by
    refine load_replicate fun addr low high => ?_
    have cleared := zero _ (Members.gapAt_gap rest (addr - (pos + ty.inlineSize))
      (by omega : _ < gap))
    rw [← untouched _ (by omega) (by omega)] at cleared
    rwa [show pos + (ty.inlineSize + (addr - (pos + ty.inlineSize))) = addr by omega]
      at cleared
  refine ⟨(v, values), ?_⟩
  rw [Members.size, Nat.add_assoc ty.inlineSize]
  rw [← Nat.add_assoc pos] at more ⊢
  refine (one.append ((one.ready.idle (pos + ty.inlineSize) gap).append more (by omega))
    (by omega)).mono ?_
  rintro memory ⟨_, _, split, -, -, ⟨here, described⟩, _, _, split', -, -, ⟨rfl, -⟩,
    there, described'⟩
  rw [split, split', zeros]
  refine ⟨?_, described.append ?_⟩
  · rw [Members.view, here, ← Nat.add_assoc pos, there]
  · exact (Describes.bytes true _).append described'

private lemma accepts_fieldsNil (depth : Nat) : FieldsAccept base coding cfg .nil depth := by
  intro _ _ _ ready below sound
  rw [Nat.mul_comm] at below ⊢
  obtain ⟨values, length, accepted⟩ :=
    accepts_each cfg (accepting_unknown cfg) ready below sound
  refine ⟨values, length, accepted.mono ?_⟩
  rintro _ ⟨read, described⟩
  refine ⟨read, ?_, described.image, described.present⟩
  rw [← described.handles]
  exact (flatMap_eq_nil_iff.mpr fun _ _ => rfl).symm

private lemma accepts_reserved (others : FieldsAccept base coding cfg rest depth) :
    FieldsAccept base coding cfg (.reserved rest) depth := by
  intro count pos _ ready _ sound
  cases count with
  | zero =>
    refine ⟨none, rfl, (ready.idle pos 0).mono ?_⟩
    rintro memory ⟨same, -⟩
    rw [same]
    exact ⟨rfl, Describes.bytes _ _⟩
  | succ count =>
    rw [Fields.decode] at sound ⊢
    obtain ⟨raw, one⟩ := accepts_unknown ready (by omega)
      (Sticky.sound ((sticky_respected cfg).decodeFields rest depth count _ _) sound)
    have next := one.next
    obtain ⟨v, counted, more⟩ := others count (pos + 8) _ one.ready (by omega) sound
    refine ⟨some (raw, v), congrArg (· + 1) counted, ?_⟩
    rw [show 8 * (count + 1) = 8 + 8 * count by omega]
    refine (one.append more (by omega)).mono ?_
    rintro memory ⟨_, _, split, -, -, ⟨here, described⟩, there, described'⟩
    rw [split, Fields.view, here, there]
    exact ⟨rfl, described.append described'⟩

private lemma accepts_field (first : TypeAccepts base coding cfg ty depth)
    (others : FieldsAccept base coding cfg rest depth) :
    FieldsAccept base coding cfg (.field ty rest) depth := by
  intro count pos _ ready _ sound
  cases count with
  | zero =>
    refine ⟨none, rfl, (ready.idle pos 0).mono ?_⟩
    rintro memory ⟨same, -⟩
    rw [same]
    exact ⟨rfl, Describes.bytes _ _⟩
  | succ count =>
    rw [Fields.decode] at sound ⊢
    obtain ⟨object, one⟩ := accepts_envelope first.accepting ready (by omega)
      (Sticky.sound ((sticky_respected cfg).decodeFields rest depth count _ _) sound)
    have next := one.next
    obtain ⟨v, counted, more⟩ := others count (pos + 8) _ one.ready (by omega) sound
    refine ⟨some (object, v), congrArg (· + 1) counted, ?_⟩
    rw [show 8 * (count + 1) = 8 + 8 * count by omega]
    refine (one.append more (by omega)).mono ?_
    rintro memory ⟨_, _, split, -, -, ⟨here, described⟩, there, described'⟩
    rw [split, Fields.view, here, there]
    exact ⟨rfl, described.append described'⟩

variable (fresh : Fresh cfg.processHandle)
include fresh

set_option linter.unusedSectionVars false in
mutual

lemma decode_accepts : (ty : Ty) → ty.WellFormed → (depth : Nat) → TypeAccepts base coding cfg ty depth
  | .primitive size, _, depth => accepts_primitive size depth
  | .bool, _, depth => accepts_bool depth
  | .array element count, ⟨formed, _⟩, depth =>
    accepts_array formed (decode_accepts element formed depth) count
  | .vector element limit optional, formed, depth =>
    accepts_vectorType element formed (decode_accepts element formed) limit optional depth
  | .string limit optional, _, depth => accepts_string limit optional depth
  | .handle attrs optional, _, depth => accepts_handle fresh attrs optional depth
  | .box inner, formed, depth => accepts_box (decode_accepts inner formed) depth
  | .struct members _, ⟨formed, _, padded⟩, depth =>
    accepts_struct padded (decodeMembers_accepts members formed depth)
  | .table fields, formed, depth => accepts_table (decodeFields_accepts fields formed) depth

lemma decodeMembers_accepts : (members : Members) → members.WellFormed → (depth : Nat) →
      MembersAccept base coding cfg members depth
  | .nil, _, depth => accepts_nil depth
  | .cons ty gap rest, ⟨formed, others⟩, depth =>
    accepts_cons (decode_accepts ty formed depth)
      (decodeMembers_accepts rest others depth) gap

lemma decodeFields_accepts : (fields : Fields) → fields.WellFormed → (depth : Nat) →
      FieldsAccept base coding cfg fields depth
  | .nil, _, depth => accepts_fieldsNil depth
  | .reserved rest, formed, depth =>
    accepts_reserved (decodeFields_accepts rest formed depth)
  | .field ty rest, ⟨formed, others⟩, depth =>
    accepts_field (decode_accepts ty formed depth)
      (decodeFields_accepts rest others depth)

end

end

/-! ## WireDecode -/

/-- These are the incoming handles, some of them replaced by `zx_handle_replace`. -/
structure Successors (cfg : Config) (incoming current : List Handle) : Prop where
  length : current.length = incoming.length
  entries : ∀ index : Nat, current[index]? = incoming[index]? ∨
    ∃ attrs successor, cfg.processHandle attrs index = .replaced successor ∧
      current[index]? = some successor

/-- Skipping handles clears their entries and no others. -/
lemma getElem?_closeNextNHandles (dec : Decoder) (count index : Nat) :
    (dec.closeNextNHandles count).handles[index]? = dec.handles[index]? ∨
      index < dec.index + count ∧ (dec.closeNextNHandles count).handles[index]? = some 0 := by
  unfold Decoder.closeNextNHandles
  split
  · exact .inl rfl
  · simp only [getElem?_append, getElem?_take, getElem?_replicate, getElem?_drop, length_append,
      length_take, length_replicate]
    grind

section

variable {coding : Coding} {cfg : Config} {ty : Ty} {base size : Nat} {memory : Memory}
  {incoming : List Handle}

lemma checkConsumed_same (dec : Decoder) : ∃ error, dec.checkConsumed = { dec with error } := by
  unfold Decoder.checkConsumed
  simp only
  repeat' split
  all_goals exact ⟨_, rfl⟩

private lemma checkConsumed_sound {dec : Decoder} (sound : dec.checkConsumed.error = none) :
    dec.checkConsumed = dec ∧ dec.size ≤ dec.next ∧ dec.handles.length ≤ dec.index := by
  unfold Decoder.checkConsumed at sound ⊢
  simp only at sound ⊢
  by_cases bytes : dec.next < dec.size
  · rw [if_pos bytes] at sound
    split at sound <;> exact absurd sound (setError_ne_none _ _)
  rw [if_neg bytes] at sound ⊢
  by_cases handles : dec.index < dec.handles.length
  · rw [if_pos handles] at sound
    exact absurd sound (setError_ne_none _ _)
  · rw [if_neg handles]
    exact ⟨rfl, Nat.le_of_not_lt bytes, Nat.le_of_not_lt handles⟩

/-- `WireDecode` has accepted a message: it consumed all of it, and the object
stands for it. -/
lemma wireDecode_sound (formed : ty.WellFormed) (fresh : Fresh cfg.processHandle)
    (positive : 0 < base) (addr : base + size < 2 ^ 64) {after : Decoder}
    (accepted : wireDecode coding cfg ty { base, size, memory, handles := incoming } =
      (none, after)) :
    after.base = base ∧ after.handles.length = incoming.length ∧
      Describes (Ty.handles ty (Ty.view base ty after.memory 0))
        (Ty.known ty (Ty.view base ty after.memory 0))
        ((ty.image coding 0 (Ty.view base ty after.memory 0)).map Image.place)
        { inline := [], outOfLine := load memory 0 size, handles := after.handles } := by
  generalize run : Decoder.allocThen { base, size, memory, handles := incoming } ty.inlineSize
    (Ty.decode coding cfg ty 0) = dec
  have finished : dec.checkConsumed.finish = (none, after) := run ▸ accepted
  have sound : dec.checkConsumed.error = none := by
    cases found : dec.checkConsumed.error with
    | none => rfl
    | some error =>
      rw [Decoder.finish, found] at finished
      cases finished
  obtain ⟨same, _, handles⟩ := checkConsumed_sound sound
  rw [Decoder.finish, sound, same] at finished
  cases finished
  rw [same] at sound
  have ready : Ready base { base, size, memory, handles := incoming } :=
    ⟨rfl, rfl, positive, addr, Nat.zero_le _, Nat.dvd_zero _, Nat.zero_le _⟩
  have allocated := ready.allocated (run ▸ sound)
  rw [allocated.then] at run
  obtain ⟨_, object⟩ := decode_accepts fresh ty formed 0 0 _ (ready.advance allocated)
    (Nat.add_le_add_left (le_align _) 0) (run ▸ sound)
  have placed := object.place 0 allocated
  rw [run] at placed
  obtain ⟨_, -, whole, read, described⟩ := placed.now
  refine ⟨placed.ready.start, placed.array, ?_⟩
  have next := placed.ready.next
  have buffer : after.size = size := placed.buffer
  have ended : after.next = size := by omega
  have entire : consumed { base, size, memory, handles := incoming } after 0 0 =
      { inline := [], outOfLine := load memory 0 size, handles := after.handles } := by
    simp only [consumed, window, drop_zero, Nat.sub_zero, ended, take_of_length_le handles]
    rfl
  rw [← entire, whole, read]
  exact described.place

end

end FuchsiaSdk.WireAccepted
