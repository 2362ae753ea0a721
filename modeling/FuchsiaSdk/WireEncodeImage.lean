import FuchsiaSdk.WireEncodeHandles

/-! What `WireEncode` emits is the image of the value. The encoder writes an
object into a region it has allocated before, and appends the objects out of
line; each combinator of the coding traits is shown to emit the corresponding
combination of images, whatever the iovec capacity is. The capacity of an iovec is a `uint32_t`,
which cuts off what is in the iovecs of a message that is larger. -/
namespace FuchsiaSdk.WireEncodeImage
open Memory WireFormat WireEncoder WireEncodeHandles
open List hiding after
open Encoder (currentLength consumedBytesInCurrentIovec alloc_fits allocThen)

/-- The bytes emitted so far, where the backing buffer has this content. -/
def message (memory : Memory) (enc : Encoder) : List UInt8 :=
  gather memory enc.iovecs ++ load memory enc.begin (enc.next - enc.begin)

/-- The part of the backing buffer that is not yet in an iovec fits in one. -/
def Narrow (enc : Encoder) : Prop := enc.next < 2 ^ 32 ∨ enc.currentLength < 2 ^ 32

/-- From one state of the encoder to the other the inline part of an image was
written at a position and the rest of it was emitted. What is sent of it is all if that fits in an
iovec. -/
structure Emits (before after : Encoder) (pos : Nat) (image : Image) (sent : List UInt8) :
    Prop where
  begin : after.begin ≤ after.next
  next : before.next ≤ after.next
  handles : after.handles = before.handles ++ image.handles
  length : after.currentLength = before.currentLength + image.outOfLine.length
  frame : ∀ addr, addr < before.next → addr < pos ∨ pos + image.inline.length ≤ addr →
    after.memory addr = before.memory addr
  inline : load after.memory pos image.inline.length = image.inline
  outOfLine : Narrow after → ∀ memory, AgreeOn before.next after.next memory after.memory →
    message memory after = message memory before ++ sent
  whole : image.outOfLine.length < 2 ^ 32 → sent = image.outOfLine

section

variable {before middle after enc : Encoder} {pos size : Nat} {image more : Image}
  {bytes sent sent' : List UInt8}

lemma Emits.narrow (emits : Emits before after pos image sent) (narrow : Narrow after) :
    Narrow before := by
  have next := emits.next
  have length := emits.length
  unfold Narrow at narrow ⊢
  omega

lemma Emits.congr (emits : Emits before after pos image sent) (same : Narrow after → sent' = sent)
    (whole : image.outOfLine.length < 2 ^ 32 → sent' = image.outOfLine) :
    Emits before after pos image sent' :=
  { emits with
    outOfLine := fun narrow => same narrow ▸ emits.outOfLine narrow
    whole }

lemma Emits.idle (pos : Nat) (bytes : List UInt8) (begin : enc.begin ≤ enc.next)
    (loaded : load enc.memory pos bytes.length = bytes) : Emits enc enc pos { inline := bytes } [] where
  begin := begin
  next := le_rfl
  handles := (append_nil _).symm
  length := rfl
  frame _ _ _ := rfl
  inline := loaded
  outOfLine _ _ _ := (append_nil _).symm
  whole _ := rfl

lemma Emits.write (pos : Nat) (bytes : List UInt8) (begin : enc.begin ≤ enc.next) :
    Emits enc (enc.write pos bytes) pos { inline := bytes } [] where
  begin := begin
  next := le_rfl
  handles := (append_nil _).symm
  length := rfl
  frame _ _ outside := store_outside outside
  inline := load_store ..
  outOfLine _ _ _ := (append_nil _).symm
  whole _ := rfl

/-- Two objects after each other. -/
lemma Emits.append (first : Emits before middle pos image sent)
    (second : Emits middle after (pos + image.inline.length) more sent')
    (inside : pos + image.inline.length + more.inline.length ≤ before.next) :
    Emits before after pos (image ++ more) (sent ++ sent') where
  begin := second.begin
  next := Nat.le_trans first.next second.next
  handles := by
    rw [second.handles, first.handles, Image.handles_append, append_assoc]
  length := by
    rw [second.length, first.length, Image.outOfLine_append, length_append, Nat.add_assoc]
  frame := by
    intro addr below outside
    rw [Image.inline_append, length_append] at outside
    have next := first.next
    rw [second.frame addr (by omega) (by omega), first.frame addr below (by omega)]
  inline := by
    have next := first.next
    rw [Image.inline_append, length_append, load_add, second.inline]
    congr 1
    refine (load_congr fun addr above below => ?_).trans first.inline
    exact second.frame addr (by omega) (by omega)
  outOfLine := by
    intro narrow memory agree
    have next := first.next
    have next' := second.next
    rw [second.outOfLine narrow memory (agree.mono next le_rfl),
      first.outOfLine (second.narrow narrow) memory, append_assoc]
    intro addr above below
    rw [agree addr above (by omega)]
    exact second.frame addr below (by omega)
  whole := by
    intro small
    rw [Image.outOfLine_append, length_append] at small
    rw [first.whole (by omega), second.whole (by omega), Image.outOfLine_append]

/-- Only memory changes, and only in a range. -/
structure Scribbles (before after : Encoder) (start stop : Nat) : Prop where
  rest : ∃ memory, after = { before with memory }
  frame : ∀ addr, addr < start ∨ stop ≤ addr → after.memory addr = before.memory addr

lemma Scribbles.write (above : start ≤ pos) (below : pos + bytes.length ≤ stop) :
    Scribbles enc (enc.write pos bytes) start stop where
  rest := ⟨_, rfl⟩
  frame _ outside := store_outside (by omega)

lemma Scribbles.trans (first : Scribbles before middle start stop)
    (second : Scribbles middle after start stop) : Scribbles before after start stop where
  rest := by
    obtain ⟨_, rfl⟩ := first.rest
    obtain ⟨memory, rfl⟩ := second.rest
    exact ⟨memory, rfl⟩
  frame addr outside := (second.frame addr outside).trans (first.frame addr outside)

/-- What was in the place of an object before does not matter. -/
lemma Scribbles.emits (scribbles : Scribbles before middle pos (pos + image.inline.length))
    (emits : Emits middle after pos image sent) : Emits before after pos image sent := by
  obtain ⟨_, rfl⟩ := scribbles.rest
  refine { emits with frame := fun addr below outside => ?_ }
  rw [emits.frame addr below outside, scribbles.frame addr outside]

/-! ## Objects out of line -/

private lemma message_advance (memory : Memory) (size : Nat) (begin : enc.begin ≤ enc.next) :
    message memory (enc.advance size) = message memory enc ++ load memory enc.next (align size) := by
  have split : enc.next + align size - enc.begin = (enc.next - enc.begin) + align size := by omega
  simp only [message, Encoder.advance]
  rw [split, load_add, append_assoc, Nat.add_sub_cancel' begin]

private lemma currentLength_advance (size : Nat) (begin : enc.begin ≤ enc.next) :
    (enc.advance size).currentLength = enc.currentLength + align size := by
  simp only [currentLength, consumedBytesInCurrentIovec, Encoder.advance]
  omega

/-- The region that `Alloc` hands out ends with zeros, which fill up the object. -/
private lemma load_region (old : Memory) (positive : 0 < size)
    (inline : load memory pos size = bytes) (length : bytes.length = size)
    (filled : ∀ addr, pos + size ≤ addr → addr < pos + align size →
      memory addr = store old (pos + align size - 8) (replicate 8 0) addr) :
    load memory pos (align size) = pad bytes := by
  have above := le_align size
  have near := align_lt size
  have split : align size = size + (align size - size) := by omega
  rw [split, load_add, pad, length]
  congr 1
  refine load_replicate fun addr low high => ?_
  rw [filled addr low (by omega)]
  exact store_replicate (by omega) (by omega)

/-- `Alloc`, and an object at the new position. -/
lemma Emits.place (pos : Nat) (begin : before.begin ≤ before.next) (positive : 0 < size)
    (fits : before.next + align size ≤ before.capacity)
    (inside : Emits (before.alloc size).2 after before.next image sent)
    (length : image.inline.length = size) :
    Emits before after pos image.place (pad image.inline ++ sent) := by
  have room := align_pos positive
  rw [alloc_fits fits] at inside
  have next : before.next + align size ≤ after.next := inside.next
  refine ⟨inside.begin, by omega, inside.handles, ?_, ?_, rfl, ?_, fun small => ?_⟩
  · have total := currentLength_advance size begin
    rw [inside.length]
    simp only [Image.place, length_append, length_pad, length]
    exact (congrArg (· + image.outOfLine.length) total).trans (Nat.add_assoc ..)
  · intro addr _ _
    rw [inside.frame addr (by simp only [Encoder.write, Encoder.advance]; omega) (by omega)]
    exact store_outside (by omega)
  · intro narrow memory agree
    rw [inside.outOfLine narrow memory (agree.mono (Nat.le_add_right ..) le_rfl)]
    have region : load memory before.next (align size) = pad image.inline := by
      refine (load_congr fun addr low high => agree addr low (by omega)).trans ?_
      refine load_region before.memory positive (length ▸ inside.inline) length ?_
      intro addr low high
      exact inside.frame addr high (by omega)
    have advanced := message_advance memory size begin
    rw [region] at advanced
    exact (congrArg (· ++ sent) advanced).trans (append_assoc ..)
  · simp only [Image.place, length_append] at small
    rw [inside.whole (by omega)]
    rfl

lemma begin_alloc (size : Nat) (begin : enc.begin ≤ enc.next) :
    (enc.alloc size).2.begin ≤ (enc.alloc size).2.next := by
  unfold Encoder.alloc
  split <;> exact Nat.le_trans begin (Nat.le_add_right ..)

lemma fits_of_allocThen (sound : (enc.allocThen size body).hasError = false) :
    enc.next + align size ≤ enc.capacity := by
  by_contra beyond
  rw [allocThen, Encoder.alloc_over beyond] at sound
  obtain ⟨_, within⟩ := Encoder.hasError_eq_false.mp sound
  exact beyond within

lemma Emits.appendBytes (pos : Nat) (begin : enc.begin ≤ enc.next)
    (positive : 0 < bytes.length) (sound : (enc.append bytes).hasError = false) :
    Emits enc (enc.append bytes) pos { inline := [], outOfLine := pad bytes } (pad bytes) := by
  have fits := fits_of_allocThen sound
  have written : enc.append bytes =
      (enc.alloc bytes.length).2.write enc.next bytes := by
    rw [Encoder.append, allocThen, alloc_fits fits]
  rw [written]
  have emits := Emits.write enc.next bytes (begin_alloc bytes.length begin)
  have placed := Emits.place pos begin positive fits emits rfl
  simpa only [Image.place, append_nil] using placed

lemma bytes_within (memory : Memory) (start : Nat) {room : Nat} (fits : room < 2 ^ 32) :
    (Iovec.within start room).bytes memory = load memory start room := by
  rw [Iovec.within, Nat.mod_eq_of_lt fits]
  rfl

lemma Narrow.consumed (narrow : Narrow enc) : enc.next - enc.begin < 2 ^ 32 := by
  simp only [Narrow, currentLength, consumedBytesInCurrentIovec] at narrow
  omega

lemma Emits.finishIovec (pos : Nat) (begin : enc.begin ≤ enc.next) :
    Emits enc enc.finishIovec pos { inline := [] } [] := by
  unfold Encoder.finishIovec
  split
  · have length : enc.byteActual + enc.consumedBytesInCurrentIovec + (enc.next - enc.next) =
        enc.currentLength := by
      rw [Nat.sub_self]
      rfl
    refine ⟨le_rfl, le_rfl, (append_nil _).symm, length, fun _ _ _ => rfl, rfl,
      fun narrow memory _ => ?_, fun _ => rfl⟩
    have narrow : Narrow enc := narrow.imp_right length.ge.trans_lt
    simp only [message, gather, flatMap_append, flatMap_singleton, consumedBytesInCurrentIovec,
      bytes_within memory enc.begin narrow.consumed, Nat.sub_self, load, append_nil]
  · exact Emits.idle _ _ begin rfl

private lemma finishIovec_begin (begin : enc.begin ≤ enc.next) :
    enc.finishIovec.begin = enc.finishIovec.next := by
  unfold Encoder.finishIovec consumedBytesInCurrentIovec
  split
  · rfl
  · omega

lemma Emits.pointTo (pos : Nat) (bytes : List UInt8) (begin : enc.begin = enc.next) :
    Emits enc (enc.pointTo bytes) pos { inline := [], outOfLine := bytes }
      (bytes.take (bytes.length % 2 ^ 32)) := by
  refine ⟨Nat.le_of_eq begin, le_rfl, (append_nil _).symm, ?_, fun _ _ _ => rfl, rfl, ?_,
    fun small => ?_⟩
  · simp only [currentLength, consumedBytesInCurrentIovec, Encoder.pointTo]
    omega
  · simp [message, gather, Iovec.bytes, Encoder.pointTo, begin, load]
  · rw [Nat.mod_eq_of_lt small, take_length]

lemma pad_drop :
    bytes.take (bytes.length / 8 * 8) ++ pad (bytes.drop (bytes.length / 8 * 8)) = pad bytes := by
  have rest : align (bytes.drop (bytes.length / 8 * 8)).length -
      (bytes.drop (bytes.length / 8 * 8)).length = align bytes.length - bytes.length := by
    rw [length_drop, align, align]
    omega
  rw [pad, pad, rest, ← append_assoc, take_append_drop]

/-- The aligned part of a vector body. -/
def alignedPart (bytes : List UInt8) : List UInt8 := bytes.take (bytes.length / 8 * 8)

/-- What is sent of a vector body. -/
def sentBody (bytes : List UInt8) : List UInt8 :=
  (alignedPart bytes).take ((alignedPart bytes).length % 2 ^ 32) ++
    pad (bytes.drop (bytes.length / 8 * 8))

lemma sentBody_of_small (small : bytes.length < 2 ^ 32) : sentBody bytes = pad bytes := by
  have aligned : (alignedPart bytes).length < 2 ^ 32 :=
    Nat.lt_of_le_of_lt (length_take_le ..) (by omega)
  rw [sentBody, Nat.mod_eq_of_lt aligned, take_length]
  exact pad_drop

/-- Where the aligned part of a vector body becomes an iovec of its own. -/
lemma Emits.aligned (bytes : List UInt8) (begin : enc.begin ≤ enc.next) (inside : pos ≤ enc.next) :
    Emits enc (if bytes.length / 8 * 8 > 0 then enc.finishIovec.pointTo (alignedPart bytes) else enc)
      pos { inline := [], outOfLine := alignedPart bytes }
      ((alignedPart bytes).take ((alignedPart bytes).length % 2 ^ 32)) := by
  split
  · exact (Emits.finishIovec pos begin).append
      (Emits.pointTo pos _ (finishIovec_begin begin)) inside
  have empty : alignedPart bytes = [] := by
    rw [alignedPart, show bytes.length / 8 * 8 = 0 by omega, take_zero]
  rw [empty]
  exact Emits.idle _ _ begin rfl

/-- The body of a memcpy-compatible vector, however it is split. -/
lemma Emits.memcpy (begin : enc.begin ≤ enc.next) (inside : pos ≤ enc.next)
    (positive : 0 < bytes.length) (sound : (enc.encodeMemcpyableVector bytes).hasError = false) :
    Emits enc (enc.encodeMemcpyableVector bytes) pos { inline := [], outOfLine := pad bytes }
      (sentBody bytes) := by
  have padded := le_align bytes.length
  unfold Encoder.encodeMemcpyableVector at sound ⊢
  split at sound
  · rw [if_pos ‹_›]
    have emits := Emits.appendBytes pos begin positive sound
    have fits := fits_of_allocThen sound
    have next : (enc.append bytes).next = enc.next + align bytes.length := by
      rw [Encoder.append, allocThen, alloc_fits fits]
      rfl
    have length := emits.length
    simp only [length_pad] at length
    refine emits.congr (fun narrow => ?_) fun small => ?_
    · unfold Narrow at narrow
      exact sentBody_of_small (by omega)
    · simp only [length_pad] at small
      exact sentBody_of_small (by omega)
  rw [if_neg ‹_›]
  simp only at sound ⊢
  have aligned := Emits.aligned bytes begin inside
  rw [← pad_drop]
  split at sound
  next unaligned =>
    rw [if_pos unaligned]
    have tail := Emits.appendBytes pos aligned.begin (by rwa [length_drop]) sound
    exact aligned.append tail inside
  next exactly =>
    rw [if_neg exactly, sentBody]
    have nothing : bytes.drop (bytes.length / 8 * 8) = [] :=
      drop_eq_nil_of_le (by omega)
    rw [nothing]
    simp only [show pad ([] : List UInt8) = [] from rfl, append_nil]
    exact aligned

end

/-! ## Coding traits -/

/-- If no error is met, the value has an image and that is emitted. -/
def Encodes (size : Nat) (before after : Encoder) (pos : Nat) (image : Option Image)
    (sent : List UInt8) : Prop :=
  before.begin ≤ before.next → pos + size ≤ before.next → after.hasError = false →
    ∃ emitted, image = some emitted ∧ emitted.inline.length = size ∧
      Emits before after pos emitted sent

/-- What is sent does not depend on the encoder. -/
def Sends (size : Nat) (encode : Nat → Encoder → Encoder) (image : Option Image) : Prop :=
  ∃ sent, ∀ pos enc, Encodes size enc (encode pos enc) pos image sent

section

variable {before middle after enc : Encoder} {pos size : Nat} {bytes : List UInt8}
  {first more image : Option Image} {sent sent' : List UInt8} {α : Type} {coding : Coding}
  {optional : Bool}

lemma Keeps.sound (keeps : Keeps before after) (sound : after.hasError = false) :
    before.hasError = false := by
  cases failed : before.hasError with
  | false => rfl
  | true => simp [keeps.error failed] at sound

lemma encodes_write (length : bytes.length = size) :
    Encodes size enc (enc.write pos bytes) pos (some { inline := bytes }) [] :=
  fun begin _ _ => ⟨_, rfl, length, Emits.write pos bytes begin⟩

lemma sends_write (length : bytes.length = size) :
    Sends size (fun pos enc => enc.write pos bytes) (some { inline := bytes }) :=
  ⟨[], fun _ _ => encodes_write length⟩

lemma encodes_setError : Encodes size before (enc.setError error) pos image sent := by
  intro _ _ sound
  simp [Encoder.hasError, Encoder.setError] at sound

/-- One object after the other; what the first one left alone is known when the
second one is encoded. -/
lemma Encodes.andThen (one : Encodes size before middle pos first sent) (keeps : Keeps middle after)
    (two : ∀ emitted, emitted.inline.length = size → Emits before middle pos emitted sent →
      pos + size + size' ≤ before.next → Encodes size' middle after (pos + size) more sent') :
    Encodes (size + size') before after pos (join first more) (sent ++ sent') := by
  intro begin _ sound
  obtain ⟨left, rfl, length, emits⟩ := one begin (by omega) (Keeps.sound keeps sound)
  have next := emits.next
  obtain ⟨right, rfl, length', emits'⟩ := two left length emits (by omega) emits.begin (by omega) sound
  refine ⟨left ++ right, rfl, ?_, ?_⟩
  · rw [Image.inline_append, length_append, length, length']
  · refine emits.append (length ▸ emits') ?_
    omega

lemma Encodes.append (one : Encodes size before middle pos first sent)
    (keeps : Keeps middle after) (two : Encodes size' middle after (pos + size) more sent') :
    Encodes (size + size') before after pos (join first more) (sent ++ sent') :=
  one.andThen keeps fun _ _ _ _ => two

/-- An object that refers to one out of line. -/
lemma Encodes.refer (one : Encodes size before middle pos first sent)
    (keeps : Keeps middle after) (two : Encodes 0 middle after (pos + size) more sent') :
    Encodes size before after pos (join first more) (sent ++ sent') :=
  one.append keeps two

lemma sends_each {image : α → Option Image} (cfg : Config)
    (keeps : ∀ v pos enc, Keeps enc (encode v pos enc))
    (one : ∀ v, Sends stride (encode v) (image v)) (values : List α) :
    Sends (values.length * stride) (encodeEach encode stride values) (imageEach image values) := by
  induction values with
  | nil =>
    refine ⟨[], fun pos enc begin _ _ => ?_⟩
    exact ⟨{ inline := [] }, rfl, by simp, Emits.idle _ _ begin rfl⟩
  | cons v rest ih =>
    have total : (v :: rest).length * stride = stride + rest.length * stride := by
      rw [length_cons]
      ring
    rw [total]
    obtain ⟨_, first⟩ := one v
    obtain ⟨_, others⟩ := ih
    exact ⟨_, fun pos enc => (first pos enc).append
      ((keeps_respected cfg).each (fun _ => []) keeps ..) (others _ _)⟩

/-- `Alloc` and an object at the new position. -/
lemma sends_allocThen (positive : 0 < size) (inside : Sends size body image) :
    Sends 0 (fun _ enc => enc.allocThen size body) (image.map Image.place) := by
  obtain ⟨sent, encodes⟩ := inside
  refine ⟨image.elim [] (pad ·.inline) ++ sent, fun pos enc begin _ sound => ?_⟩
  dsimp only at sound ⊢
  have fits := fits_of_allocThen sound
  have unfolded : enc.allocThen size body = body enc.next (enc.alloc size).2 := by
    rw [allocThen, alloc_fits fits]
  rw [unfolded] at sound ⊢
  have room : enc.next + size ≤ (enc.alloc size).2.next := by
    rw [alloc_fits fits]
    exact Nat.add_le_add_left (le_align size) _
  obtain ⟨emitted, rfl, length, emits⟩ := encodes _ _ (begin_alloc size begin) room sound
  exact ⟨emitted.place, rfl, rfl, Emits.place _ begin positive fits emits length⟩

lemma sends_deeper (coding : Coding) (depth diff : Nat) {body : Nat → Nat → Encoder → Encoder}
    {image : Nat → Option Image} (inside : ∀ depth, Sends size (body depth) (image depth)) :
    Sends size (fun pos enc => enc.deeper coding depth diff fun depth enc =>
      body depth pos enc) ((coding.add depth diff).bind image) := by
  unfold Encoder.deeper
  cases coding.add depth diff with
  | none => exact ⟨[], fun _ _ => encodes_setError⟩
  | some depth => exact inside depth

/-- A header, and what it refers to. -/
lemma sends_refer (body : Encoder → Encoder) (length : bytes.length = size)
    (keeps : ∀ enc, Keeps enc (body enc)) (inside : Sends 0 (fun _ => body) more) :
    Sends size (fun pos enc => body (enc.write pos bytes))
      (join (some { inline := bytes }) more) := by
  obtain ⟨sent, encodes⟩ := inside
  exact ⟨[] ++ sent, fun pos enc => (encodes_write length).refer (keeps _) (encodes _ _)⟩

lemma Sends.congr (sends : Sends size encode image)
    (same : ∀ pos enc, encode' pos enc = encode pos enc) : Sends size encode' image := by
  obtain ⟨sent, encodes⟩ := sends
  exact ⟨sent, fun pos enc => same pos enc ▸ encodes pos enc⟩

/-- Encoding a value keeps errors and emits its image. -/
structure Faithful (stride : Nat) (image : α → Option Image) (encode : α → Nat → Encoder → Encoder) :
    Prop where
  keeps : ∀ v pos enc, Keeps enc (encode v pos enc)
  sends : ∀ v, Sends stride (encode v) (image v)

/-- `raw` is how the elements of a memcpy-compatible vector are copied. -/
def Raw (stride : Nat) (image : Nat → α → Option Image) (raw : Option (α → List UInt8)) : Prop :=
  ∀ copy, raw = some copy → ∀ v, (copy v).length = stride ∧
    ∀ depth, image depth v = some { inline := copy v }

private lemma sends_array (cfg : Config) {image : α → Option Image} (copies : compatible = true → ∀ v,
      (raw v).length = stride ∧ image v = some { inline := raw v })
    (faithful : Faithful stride image encode) (values : List α) :
    Sends (values.length * stride) (fun pos enc =>
      if compatible then enc.write pos (values.flatMap raw)
      else encodeEach encode stride values pos enc) (imageEach image values) := by
  cases compatible with
  | true =>
    have same := imageEach_raw (fun v => (copies rfl v).2) values
    rw [same]
    refine sends_write (length_imageEach (fun v emitted found => ?_) _ same)
    rw [(copies rfl v).2] at found
    cases found
    exact (copies rfl v).1
  | false => exact sends_each cfg faithful.keeps faithful.sends values

private lemma sends_memcpy (positive : 0 < bytes.length) :
    Sends 0 (fun _ enc => enc.encodeMemcpyableVector bytes)
      (some { inline := [], outOfLine := pad bytes }) :=
  ⟨_, fun _ _ begin inside sound => ⟨_, rfl, rfl, Emits.memcpy begin inside positive sound⟩⟩

lemma sends_vector (cfg : Config) {image : Nat → α → Option Image}
    (positive : 0 < stride) (copies : Raw stride image raw)
    (faithful : raw = none → ∀ depth, Faithful stride (image depth) (encode depth)) :
    Sends 16 (encodeVector coding raw encode stride limit optional (some values) · depth)
      (vectorImage coding image limit values depth) := by
  have kept := keeps_respected cfg
  unfold vectorImage
  split
  next beyond =>
    exact ⟨[], fun _ _ => by simpa only [encodeVector_over beyond] using encodes_setError⟩
  next within =>
    cases values with
    | nil => exact sends_write (length_vectorHeader ..)
    | cons v rest =>
      have unfolded (pos) (enc : Encoder) := @encodeVector_cons α coding raw encode optional
        enc v rest limit stride pos depth within
      cases raw with
      | none =>
        have body := sends_deeper coding depth 1 fun depth => sends_allocThen (Nat.mul_pos
          (Nat.succ_pos rest.length) positive) (sends_each cfg (faithful rfl depth).keeps
            (faithful rfl depth).sends (v :: rest))
        exact (sends_refer _ (length_vectorHeader ..) (fun _ => kept.deeper [] fun depth _ =>
          kept.allocThen [] fun _ _ => kept.each (fun _ => []) (faithful rfl depth).keeps
            stride (v :: rest) _ _) body).congr unfolded
      | some copy =>
        have length : 0 < ((v :: rest).flatMap copy).length := by
          rw [flatMap_cons, length_append, (copies copy rfl v).1]
          omega
        have same (depth) : (imageEach (image depth) (v :: rest)).map Image.place =
            some { inline := [], outOfLine := pad ((v :: rest).flatMap copy) } := by
          rw [imageEach_raw fun v => (copies copy rfl v).2 depth]
          simp [Image.place]
        simp only [same]
        exact (sends_refer _ (length_vectorHeader ..)
          (fun _ => kept.deeper [] fun _ _ => kept.memcpy ..)
          (sends_deeper _ _ _ fun _ => sends_memcpy length)).congr unfolded

private lemma sends_string (cfg : Config) :
    Sends 16 (encodeString coding limit optional (some bytes) · depth)
      (if coding.isValidUtf8 bytes then
        vectorImage coding (fun _ byte => some { inline := [byte] }) limit bytes depth
      else none) := by
  have body : Sends 16 (encodeVector coding (some fun byte => [byte])
      (fun _ _ _ enc => enc) 1 limit optional (some bytes) · depth)
      (vectorImage coding (fun _ byte => some { inline := [byte] }) limit bytes depth) := by
    refine sends_vector cfg Nat.one_pos ?_ ?_
    · rintro _ ⟨⟩ _
      exact ⟨rfl, fun _ => rfl⟩
    · rintro ⟨⟩
  obtain ⟨sent, body⟩ := body
  refine ⟨sent, fun pos enc begin inside sound => ?_⟩
  have body := body pos enc
  unfold encodeString at sound ⊢
  simp only at sound ⊢
  split at sound
  · simp_all
  rename_i unfailed
  rw [if_neg unfailed]
  split at sound
  next valid =>
    rw [if_pos valid, if_pos valid]
    exact body begin inside sound
  · simp [Encoder.hasError, Encoder.setError] at sound

private lemma sends_box (cfg : Config) {image : Nat → α → Option Image} (positive : 0 < size)
    (faithful : ∀ depth, Faithful size (image depth) (encode depth)) (v : α) :
    Sends 8 (encodeBox coding encode size (some v) · depth)
      (join (some { inline := littleEndian 8 allocPresent })
        ((coding.add depth 1).bind fun depth => (image depth v).map Image.place)) := by
  have kept := keeps_respected cfg
  have swap : join (some { inline := littleEndian 8 allocPresent })
        ((coding.add depth 1).bind fun depth => (image depth v).map Image.place) =
      (coding.add depth 1).bind fun depth =>
        join (some { inline := littleEndian 8 allocPresent })
          ((image depth v).map Image.place) := by
    cases coding.add depth 1 <;> rfl
  rw [swap]
  exact sends_deeper _ _ _ fun depth => sends_refer _ (length_littleEndian ..)
    (fun _ => kept.allocThen [] ((faithful depth).keeps v))
    (sends_allocThen positive ((faithful depth).sends v))

private lemma encodes_handle : Encodes 4 enc (enc.encodeHandle cfg handle attrs pos optional) pos
      (handleImage optional handle) [] := by
  unfold Encoder.encodeHandle handleImage
  split
  · split
    · exact encodes_write (length_littleEndian ..)
    · exact encodes_setError
  split
  next failed =>
    intro _ _ sound
    exact absurd failed (by rw [show enc.hasError = false from sound]; decide)
  split
  · exact encodes_setError
  split
  · exact encodes_setError
  intro begin _ _
  refine ⟨_, rfl, length_littleEndian .., ?_⟩
  have written := Emits.write pos (littleEndian 4 handlePresent) begin
  exact { written with handles := rfl }

/-- The counts and flags of an envelope are written after its object. -/
lemma Emits.envelope {image : Image} {first : List UInt8}
    (emits : Emits before middle pos image sent) (whole : image.inline = first)
    (length : first.length = 4) (inside : pos + 8 ≤ before.next) (count flags : Nat) :
    Emits before ((middle.write (pos + 4) (littleEndian 2 count)).write (pos + 6)
      (littleEndian 2 flags)) pos { image with inline := envelopeHeader first count flags } sent := by
  have four : image.inline.length = 4 := by rw [whole, length]
  have counted : Emits before _ pos _ _ := emits.append
    (by rw [four]; exact Emits.write (pos + 4) (littleEndian 2 count) emits.begin)
    (by rw [length_littleEndian]; omega)
  have flagged : Emits before _ pos _ _ := counted.append
    (by
      rw [Image.inline_append, length_append, four]
      exact Emits.write (pos + 6) (littleEndian 2 flags) emits.begin)
    (by simp only [Image.inline_append, length_append, four, length_littleEndian]; omega)
  rw [Image.append_bytes, Image.append_bytes, append_nil, append_nil] at flagged
  rwa [← whole]

lemma sends_unset : Sends 8 encodeUnsetEnvelope (some absentEnvelope) :=
  sends_write length_replicate

private lemma sends_inlineEnvelope {image : α → Option Image}
    (small : size ≤ inliningSizeThreshold) (faithful : Faithful size image encode) :
    Sends 8 (encodeEnvelope encode size (some v)) ((image v).map (envelopeImage size)) := by
  obtain ⟨sent, encodes⟩ := faithful.sends v
  refine ⟨sent, fun pos enc begin inside sound => ?_⟩
  have few : size ≤ 4 := small
  simp only [encodeEnvelope, if_pos small] at sound ⊢
  obtain ⟨emitted, found, length, emits⟩ :=
    encodes pos (enc.write pos (replicate 4 0)) begin
      (by simp only [Encoder.write]; omega) sound
  refine ⟨envelopeImage size emitted, by rw [found]; rfl, length_inline_envelopeImage length, ?_⟩
  have handles := congrArg List.length emits.handles
  rw [length_append] at handles
  have count : (encode v pos (enc.write pos (replicate 4 0))).handles.length -
      enc.handles.length = emitted.handles.length := by
    simp only [Encoder.write] at handles ⊢
    omega
  rw [count, envelopeImage, if_pos small, length]
  -- The bytes after a short object were zeroed before and are left alone.
  have filled := emits.append (Emits.idle _ (replicate (4 - size) 0) emits.begin (by
      rw [length_replicate]
      refine load_replicate fun addr low high => ?_
      rw [emits.frame addr (by simp only [Encoder.write]; omega) (by omega)]
      exact store_replicate (by omega) (by omega)))
    (by simp only [length_replicate, Encoder.write]; omega)
  rw [Image.append_bytes, append_nil] at filled
  refine Scribbles.emits ?_ (filled.envelope rfl ?_ inside _ _)
  · refine Scribbles.write le_rfl ?_
    simp only [length_envelopeHeader, length_append, length_replicate]
    omega
  · rw [length_append, length_replicate]
    omega

private lemma sends_outOfLineEnvelope {image : α → Option Image}
    (positive : 0 < size) (large : ¬size ≤ inliningSizeThreshold) (faithful : Faithful size image encode) :
    Sends 8 (encodeEnvelope encode size (some v)) ((image v).map (envelopeImage size)) := by
  obtain ⟨sent, encodes⟩ := faithful.sends v
  refine ⟨(image v).elim [] (pad ·.inline) ++ sent, fun pos enc begin inside sound => ?_⟩
  simp only [encodeEnvelope, if_neg large] at sound ⊢
  have fits := fits_of_allocThen sound
  have taken : enc.alloc size = (some enc.next, (enc.alloc size).2) := by
    rw [alloc_fits fits]
  rw [allocThen, taken] at sound ⊢
  simp only at ⊢
  have room : enc.next + size ≤ (enc.alloc size).2.next := by
    rw [alloc_fits fits]
    exact Nat.add_le_add_left (le_align size) _
  obtain ⟨emitted, found, length, emits⟩ :=
    encodes enc.next _ (begin_alloc size begin) room sound
  rw [found]
  refine ⟨envelopeImage size emitted, rfl, length_inline_envelopeImage length, ?_⟩
  have placed := Emits.place pos begin positive fits emits length
  have handles := congrArg List.length placed.handles
  rw [length_append] at handles
  have total := placed.length
  have started := placed.append (Emits.write pos
    (littleEndian 4 emitted.place.outOfLine.length) placed.begin) (by simp [Image.place]; omega)
  rw [Image.append_bytes, append_nil] at started
  rw [envelopeImage, if_neg large, total, Nat.add_sub_cancel_left]
  have count : (encode v enc.next (enc.alloc size).2).handles.length -
      enc.handles.length = emitted.handles.length := by
    rw [handles]
    exact Nat.add_sub_cancel_left ..
  simp only [Encoder.write] at started ⊢
  rw [count]
  exact started.envelope rfl (length_littleEndian ..) inside _ _

private lemma sends_envelope {image : α → Option Image}
    (positive : 0 < size) (faithful : Faithful size image encode) (v : Option α) :
    Sends 8 (encodeEnvelope encode size v) (optionalEnvelopeImage size image v) := by
  cases v with
  | none => exact sends_unset
  | some v =>
    by_cases small : size ≤ inliningSizeThreshold
    · exact sends_inlineEnvelope small faithful
    · exact sends_outOfLineEnvelope positive small faithful

private lemma scribbles_zeroPaddings (pos : Nat) (enc : Encoder)
    (inside : ∀ padding ∈ paddings, padding.offset + padding.mask.length ≤ size) :
    Scribbles enc (zeroPaddings pos paddings enc) pos (pos + size) := by
  induction paddings generalizing enc with
  | nil => exact ⟨⟨_, rfl⟩, fun _ _ => rfl⟩
  | cons padding _ ih =>
    have here := inside padding mem_cons_self
    refine (Scribbles.write (Nat.le_add_right ..) ?_).trans (ih _ fun other mem => ?_)
    · rw [length_replicate]
      omega
    · exact inside other (mem_cons_of_mem _ mem)

/-- Every byte of the words with padding is zero before the members are encoded. -/
private lemma zeroPaddings_zero : ∀ {paddings : List Padding} {enc : Encoder},
    (enc.memory addr = 0 ∨ ∃ padding ∈ paddings, pos + padding.offset ≤ addr ∧
      addr < pos + padding.offset + padding.mask.length) →
    (zeroPaddings pos paddings enc).memory addr = 0 := by
  intro paddings
  induction paddings with
  | nil => simp [zeroPaddings]
  | cons padding _ ih =>
    intro enc covered
    apply ih
    by_cases here : pos + padding.offset ≤ addr ∧ addr < pos + padding.offset + padding.mask.length
    · exact Or.inl (store_replicate here.1 here.2)
    rcases covered with zero | ⟨other, mem, low, high⟩
    · refine Or.inl ((store_outside ?_).trans zero)
      rw [length_replicate]
      omega
    · rcases mem_cons.mp mem with rfl | mem
      · exact absurd ⟨low, high⟩ here
      · exact Or.inr ⟨other, mem, low, high⟩

private lemma padded_zero {members : Members} (padded : members.PaddedBy paddings) (off : Nat)
    (gap : members.gapAt off = true) : (zeroPaddings pos paddings enc).memory (pos + off) = 0 := by
  obtain ⟨padding, mem, _, rfl, byte⟩ := padded.complete off gap
  obtain ⟨inside, -⟩ := List.getElem?_eq_some_iff.mp byte
  exact zeroPaddings_zero (Or.inr ⟨padding, mem, by omega, by omega⟩)

end

section

variable {coding : Coding} {cfg : Config}

lemma Encodes.scribbled {members : Members}
    (inside : ∀ padding ∈ paddings, padding.offset + padding.mask.length ≤ members.size)
    (encodes : Encodes members.size (zeroPaddings pos paddings before) after pos image sent) :
    Encodes members.size before after pos image sent := by
  intro begin room sound
  have scribbles := scribbles_zeroPaddings pos before inside
  obtain ⟨_, same⟩ := scribbles.rest
  obtain ⟨emitted, found, length, emits⟩ :=
    encodes (by rw [same]; exact begin) (by rw [same]; exact room) sound
  exact ⟨emitted, found, length, Scribbles.emits (length ▸ scribbles) emits⟩

mutual

/-- What is encoded without an error is the image of the value. -/
lemma encode_sends : (ty : Ty) → ty.WellFormed → (depth : Nat) → (v : ty.Value) →
    Sends ty.inlineSize (Ty.encode coding cfg ty depth v) (ty.image coding depth v)
  | .primitive _, _, _, _ => sends_write Vector.length_toList
  | .bool, _, _, _ => sends_write rfl
  | .array element count, ⟨formed, _⟩, depth, v => by
    have length : (Vector.toList v).length = count := Vector.length_toList
    have size : (Ty.array element count).inlineSize =
        (Vector.toList v).length * element.inlineSize := by
      rw [length, Ty.inlineSize, Nat.mul_comm]
    rw [size]
    refine sends_array cfg (fun compatible v => ?_)
      ⟨(keeps_respected cfg).encode element depth, encode_sends element formed depth⟩ _
    exact ⟨element.length_raw coding compatible v, element.image_raw compatible v⟩
  | .vector element _ _, _, _, none => sends_write (length_vectorHeader ..)
  | .vector element _ _, formed, _, some values => by
    refine sends_vector cfg (element.inlineSize_pos formed) ?_ ?_
    · intro _ found v
      split at found <;> cases found
      exact ⟨element.length_raw coding ‹_› v, fun depth => element.image_raw ‹_› v⟩
    · intro _ depth
      exact ⟨(keeps_respected cfg).encode element depth, encode_sends element formed depth⟩
  | .string _ _, _, _, none => sends_write (length_vectorHeader ..)
  | .string _ _, _, _, some bytes => sends_string cfg
  | .handle attrs _, _, _, v => ⟨[], fun _ _ => encodes_handle⟩
  | .box _, _, _, none => sends_write (length_littleEndian ..)
  | .box inner, formed, _, some v =>
    sends_box cfg (inner.inlineSize_pos formed) (fun depth =>
      ⟨(keeps_respected cfg).encode inner depth, encode_sends inner formed depth⟩) v
  | .struct members paddings, ⟨formed, _, padded⟩, depth, v => by
    obtain ⟨sent, encodes⟩ := encodeMembers_sends members formed depth v
    exact ⟨sent, fun pos enc => Encodes.scribbled padded.inside
      (encodes pos _ (padded_zero padded))⟩
  | .table fields, formed, depth, v => by
    have kept := keeps_respected cfg
    by_cases empty : fields.count v = 0
    · refine ⟨[], fun pos enc => ?_⟩
      simp only [Ty.encode, Ty.image, Ty.inlineSize]
      rw [if_pos empty, if_pos empty, empty]
      exact encodes_write (length_vectorHeader ..)
    have swap : ((coding.add depth coding.tableDepth).bind fun depth =>
        (fields.image coding depth v).map Image.place) = ((coding.add depth
          coding.tableDepth).bind fun depth => fields.image coding depth v).map Image.place := by
      cases coding.add depth coding.tableDepth <;> rfl
    rw [Ty.image, if_neg empty, swap]
    refine (sends_refer _ (length_vectorHeader ..) (fun _ => kept.allocThen [] fun base enc =>
      kept.deeper [] fun depth enc => kept.encodeFields fields depth v base enc)
      (sends_allocThen (by omega) (sends_deeper _ _ _ fun depth =>
        encodeFields_sends fields formed depth v))).congr fun _ _ => ?_
    simp only [Ty.encode]
    rw [if_neg empty]

lemma encodeMembers_sends : (members : Members) → members.WellFormed → (depth : Nat) →
    (v : members.Value) → ∃ sent, ∀ pos enc,
      (∀ off, members.gapAt off = true → enc.memory (pos + off) = 0) →
      Encodes members.size enc (Members.encode coding cfg members depth v pos enc)
        pos (members.image coding depth v) sent
  | .nil, _, _, _ => ⟨[], fun _ _ _ begin _ _ => ⟨_, rfl, rfl, Emits.idle _ _ begin rfl⟩⟩
  | .cons ty gap rest, ⟨formed, others⟩, depth, v => by
    have kept := keeps_respected cfg
    obtain ⟨sent, first⟩ := encode_sends ty formed depth v.1
    obtain ⟨more, second⟩ := encodeMembers_sends rest others depth v.2
    refine ⟨sent ++ ([] ++ more), fun pos enc zero => ?_⟩
    rw [Members.size, Nat.add_assoc]
    refine (first pos enc).andThen
      (kept.encodeMembers rest depth v.2 _ _) fun emitted length emits inside => ?_
    -- The padding after the member was zeroed before and is left alone by it.
    have untouched : ∀ off, ty.inlineSize ≤ off → off < ty.inlineSize + (gap + rest.size) →
        (Ty.encode coding cfg ty depth v.1 pos enc).memory (pos + off) =
          enc.memory (pos + off) := by
      intro off low high
      exact emits.frame _ (by omega) (by omega)
    have zeros : Encodes gap (Ty.encode coding cfg ty depth v.1 pos enc)
        (Ty.encode coding cfg ty depth v.1 pos enc)
        (pos + ty.inlineSize) (some { inline := replicate gap 0 }) [] := by
      intro begin _ _
      refine ⟨_, rfl, length_replicate, Emits.idle _ _ begin ?_⟩
      rw [length_replicate]
      refine load_replicate fun addr low high => ?_
      have gap := zero _ (Members.gapAt_gap rest (addr - (pos + ty.inlineSize)) (by omega))
      rw [← untouched _ (by omega) (by omega)] at gap
      rwa [show pos + (ty.inlineSize + (addr - (pos + ty.inlineSize))) = addr by omega]
        at gap
    refine zeros.append (kept.encodeMembers rest depth v.2 _ _) ?_
    rw [Members.encode, Nat.add_assoc pos]
    refine second _ _ fun off found => ?_
    have below := rest.gapAt_lt found
    rw [Nat.add_assoc pos, untouched _ (by omega) (by omega)]
    exact zero _ (by rwa [Members.gapAt_rest])

lemma encodeFields_sends : (fields : Fields) → fields.WellFormed → (depth : Nat) →
    (v : fields.Value) → Sends (8 * fields.count v)
      (Fields.encode coding cfg fields depth v) (fields.image coding depth v)
  | .nil, _, _, more => by
    rw [Fields.count, Nat.mul_comm]
    exact sends_each cfg (fun _ pos enc => (Quiet.write enc pos _).keeps) (fun _ => sends_unset) more
  | .reserved _, _, _, none => ⟨[], fun _ _ begin _ _ => ⟨_, rfl, rfl, Emits.idle _ _ begin rfl⟩⟩
  | .reserved rest, formed, depth, some v => by
    rw [Fields.count, Nat.mul_succ, Nat.add_comm]
    obtain ⟨_, first⟩ := sends_unset
    obtain ⟨_, second⟩ := encodeFields_sends rest formed depth v.2
    exact ⟨_, fun pos enc => (first pos enc).append
      ((keeps_respected cfg).encodeFields rest depth v.2 _ _) (second _ _)⟩
  | .field _ _, _, _, none => ⟨[], fun _ _ begin _ _ => ⟨_, rfl, rfl, Emits.idle _ _ begin rfl⟩⟩
  | .field ty rest, ⟨formed, others⟩, depth, some v => by
    rw [Fields.count, Nat.mul_succ, Nat.add_comm]
    obtain ⟨_, first⟩ := sends_envelope (ty.inlineSize_pos formed)
      ⟨(keeps_respected cfg).encode ty depth, encode_sends ty formed depth⟩ v.1
    obtain ⟨_, second⟩ := encodeFields_sends rest others depth v.2
    exact ⟨_, fun pos enc => (first pos enc).append
      ((keeps_respected cfg).encodeFields rest depth v.2 _ _) (second _ _)⟩

end

end

/-! ## WireEncode -/

private lemma gather_finalIovecs (narrow : Narrow enc) :
    gather memory enc.finalIovecs = message memory enc := by
  unfold Encoder.finalIovecs message consumedBytesInCurrentIovec
  split
  · rw [gather, flatMap_append, flatMap_singleton, bytes_within memory enc.begin narrow.consumed]
    rfl
  next nothing => rw [Nat.eq_zero_of_not_pos nothing, load, append_nil]

/-- The handles that `WireEncode` returns are those of the image of the value, and what is in the
iovecs does not depend on the encoder and is the image, except in messages of 4 GiB. -/
lemma wireEncode_sends {coding : Coding} {cfg : Config} {ty : Ty} (formed : ty.WellFormed)
    (v : ty.Value) : ∃ sent, ∀ {memory : Memory} {limits : Limits} {handleCapacity : Nat}
      {iovecs : List Iovec} {handles : List Handle} {after : Encoder},
      wireEncode coding cfg ty v { limits with memory, handleCapacity } =
        (.ok iovecs handles, after) →
      ∃ image, ty.image coding 0 v = some image ∧ handles = image.handles ∧
        (limits.capacity < 2 ^ 32 → gather after.memory iovecs = sent) ∧
        (image.place.outOfLine.length < 2 ^ 32 →
          gather after.memory iovecs = image.place.outOfLine) := by
  obtain ⟨sent, encodes⟩ := sends_allocThen (ty.inlineSize_pos formed)
    (@encode_sends coding cfg ty formed 0 v)
  refine ⟨sent, ?_⟩
  intro memory limits handleCapacity _ _ _ encoded
  have kept := wireEncode_keeps coding cfg v { limits with memory, handleCapacity }
  obtain ⟨sound, rfl, rfl, same⟩ := Encoder.finish_eq_ok encoded
  dsimp only at encodes
  obtain ⟨_, placed, -, emits⟩ := encodes 0 { limits with memory, handleCapacity } (Nat.le_refl 0)
    (Nat.le_refl 0) sound
  obtain ⟨image, found, rfl⟩ := Option.map_eq_some_iff.mp placed
  have gathers (narrow) := (gather_finalIovecs narrow).trans
    (emits.outOfLine narrow _ fun _ _ _ => rfl)
  rw [same]
  refine ⟨image, found, emits.handles, fun small => gathers (.inl ?_), fun small => ?_⟩
  · obtain ⟨-, within⟩ := Encoder.hasError_eq_false.mp sound
    have within : _ ≤ limits.capacity := kept.capacity ▸ within
    exact within.trans_lt small
  · rw [← emits.whole small]
    refine gathers (.inr (emits.length.trans_lt ?_))
    rw [show currentLength _ = 0 from rfl, Nat.zero_add]
    exact small

/-! ## The iovecs that are used -/

/-- There is an iovec left for the part of the backing buffer that `Finish` emits. -/
def Spare (enc : Encoder) : Prop := enc.iovecs.length + 1 ≤ enc.iovecCapacity

lemma spare_append (spare : Spare enc) : Spare (enc.append bytes) := by
  unfold Encoder.append Encoder.allocThen Encoder.alloc
  by_cases fits : enc.next + align bytes.length ≤ enc.capacity
  · rw [if_pos fits]
    exact spare
  · rw [if_neg fits]
    exact spare

private lemma spare_memcpy (enc : Encoder) (bytes : List UInt8) (spare : Spare enc) :
    Spare (enc.encodeMemcpyableVector bytes) := by
  unfold Encoder.encodeMemcpyableVector
  split
  · exact spare_append spare
  simp only
  -- At most two iovecs are taken, and three were left.
  have pointed : Spare (if bytes.length / 8 * 8 > 0 then
      enc.finishIovec.pointTo (bytes.take (bytes.length / 8 * 8)) else enc) := by
    split
    · unfold Encoder.finishIovec Encoder.pointTo Spare
      split <;> simp only [length_append, length_cons, length_nil] <;> omega
    · exact spare
  split
  · exact spare_append pointed
  · exact pointed

lemma spare_respected (cfg : Config) : Respected cfg fun _ before after => Spare before → Spare after where
  refl _ := id
  trans := fun first second => second ∘ first
  weaken := id
  write _ _ _ := id
  alloc enc size := by
    intro spare
    unfold Encoder.alloc
    split <;> exact spare
  memcpy := spare_memcpy
  setError _ _ := id
  handle enc handle attrs pos optional := by
    intro spare
    unfold Encoder.encodeHandle
    repeat' split
    all_goals exact spare

lemma iovecs_finish (spare : Spare enc) : enc.finish.2.iovecs.length ≤ enc.iovecCapacity := by
  cases failed : enc.hasError with
  | true =>
    obtain ⟨_, refused⟩ := Encoder.finish_of_error failed
    have same : enc.checkSize.iovecs = enc.iovecs := by
      unfold Encoder.checkSize
      split <;> rfl
    rw [refused]
    simp only [same]
    exact Nat.le_of_succ_le spare
  | false =>
    rw [Encoder.finish_of_sound failed]
    simp only [Encoder.finished, Encoder.finalIovecs]
    split
    · rw [length_append]
      exact spare
    · exact Nat.le_of_succ_le spare

/-- `Finish` does not write behind the array. -/
lemma overrun_finished (spare : Spare enc) : enc.finished.overrun = false := by
  unfold Spare at spare
  simp only [Encoder.finished, decide_eq_false_iff_not]
  omega

lemma wireEncode_spare (coding : Coding) (cfg : Config) {ty : Ty} (v : ty.Value)
    (spare : Spare enc) : Spare (enc.allocThen ty.inlineSize (Ty.encode coding cfg ty 0 v)) :=
  (spare_respected cfg).allocThen [] ((spare_respected cfg).encode ty 0 v) spare

end FuchsiaSdk.WireEncodeImage
