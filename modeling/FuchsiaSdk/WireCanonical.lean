import FuchsiaSdk.WireAccepted

/-! Messages have one encoding. `WireEncode` succeeds on every value that has an
image if its buffers are large enough, and what `WireDecode` accepts without
skipping an envelope is the image of the object that it makes. -/
namespace FuchsiaSdk.WireCanonical
open Memory WireFormat WireEncoder WireEncodeHandles WireEncodeImage WireObject WireAccepted
open List
open WireRoundTrip (letter letter_wellFormed)

/-! ## Encoding a value that has an image -/

/-- The traversal of a value reaches the handles of its image without an error,
and uses no more of the buffer than the image has bytes out of line. -/
def Reaches (room : Room) (reached : Reached) (image : Image) : Prop :=
  ∃ after : Room, reached = { handles := image.handles, room := some after } ∧
    after.next ≤ room.next + image.outOfLine.length

section

variable {limits : Limits} {coding : Coding} {cfg : Config} {room : Room} {reached : Reached}
  {image more emitted : Image} {α : Type} {bytes : List UInt8} {size stride : Nat}

lemma Reaches.go (room : Room) (bytes : List UInt8) : Reaches room (.go room) { inline := bytes } :=
  ⟨room, rfl, Nat.le_refl _⟩

/-- The inline parts of images take no room. -/
lemma Reaches.apart (reaches : Reaches room reached image) (handles : more.handles = image.handles)
    (outOfLine : more.outOfLine = image.outOfLine) : Reaches room reached more := by
  obtain ⟨after, same, used⟩ := reaches
  exact ⟨after, by rw [same, handles], by rw [outOfLine]; exact used⟩

lemma Reaches.andThen (first : Reaches room reached image)
    (fits : room.next + (image ++ more).outOfLine.length ≤ limits.capacity)
    (second : ∀ room : Room, room.next + more.outOfLine.length ≤ limits.capacity →
      Reaches room (later room) more) : Reaches room (reached.andThen later) (image ++ more) := by
  rw [Image.outOfLine_append, length_append] at fits
  obtain ⟨middle, rfl, _⟩ := first
  obtain ⟨after, same, used'⟩ := second middle (by omega)
  refine ⟨after, ?_, ?_⟩
  · simp only [Reached.andThen, same, Image.handles_append]
  · rw [Image.outOfLine_append, length_append]
    omega

/-- What is encoded of a type or of the parts of one. -/
def Encodable (limits : Limits) (reach : α → Room → Reached) (expected : α → Option Image) : Prop :=
  ∀ v image (room : Room), expected v = some image →
    room.next + image.outOfLine.length ≤ limits.capacity → Reaches room (reach v room) image

lemma reaches_each (one : Encodable limits reach expected) (found : imageEach expected values = some image)
    (fits : room.next + image.outOfLine.length ≤ limits.capacity) :
    Reaches room (reachEach reach values room) image := by
  induction values generalizing room image with
  | nil =>
    cases found
    exact .go room []
  | cons v _ ih =>
    obtain ⟨left, _, here, there, rfl⟩ := join_eq_some.mp found
    have room' : room.next + left.outOfLine.length ≤ limits.capacity := by
      rw [Image.outOfLine_append, length_append] at fits
      omega
    exact (one v left room here room').andThen fits fun room fits => ih there fits

/-- An object out of line. -/
lemma reaches_place (length : image.inline.length = size)
    (fits : room.next + image.place.outOfLine.length ≤ limits.capacity)
    (inside : ∀ room : Room, room.next + image.outOfLine.length ≤ limits.capacity →
      Reaches room (later room) image) :
    Reaches room ((room.alloc limits size).andThen later) image.place := by
  simp only [Image.place, length_append, length_pad, length] at fits
  obtain ⟨after, same, used⟩ := inside { room with next := room.next + align size } (by
    simp only
    omega)
  refine ⟨after, ?_, ?_⟩
  · rw [Room.alloc, if_pos (by omega)]
    simp only [Reached.andThen, Reached.go, same, Image.place, nil_append]
  · simp only [Image.place, length_append, length_pad, length]
    simp only at used
    omega

private lemma reaches_memcpy (fits : room.next + align bytes.length ≤ limits.capacity) :
    Reaches room (room.memcpy limits bytes.length) ({ inline := bytes } : Image).place := by
  have length : ({ inline := bytes } : Image).place.outOfLine.length = align bytes.length := by
    simp [Image.place]
  have alloc : ∀ (room : Room) (size : Nat), room.next + align size ≤ limits.capacity →
      room.alloc limits size = .go { room with next := room.next + align size } := by
    intro room size inside
    rw [Room.alloc, if_pos inside]
  unfold Room.memcpy
  split
  · rw [alloc room _ fits]
    exact ⟨_, rfl, by rw [length]⟩
  -- The aligned part takes an iovec and no room.
  generalize aligned : (if bytes.length / 8 * 8 > 0 then if room.next - room.begin > 0 then
      { room with begin := room.next, iovecs := room.iovecs + 2 }
    else { room with iovecs := room.iovecs + 1 } else room) = middle
  have kept : middle.next = room.next := by
    rw [← aligned]
    repeat' split
    all_goals rfl
  have shorter : align (bytes.length - bytes.length / 8 * 8) ≤ align bytes.length := by
    unfold align
    omega
  split
  · rw [alloc middle _ (by omega)]
    refine ⟨_, rfl, ?_⟩
    simp only
    omega
  · exact ⟨middle, rfl, by omega⟩

lemma reaches_deeper {expected : Nat → Option Image} (found : join (some { inline := bytes })
      ((coding.add depth diff).bind fun depth => (expected depth).map Image.place) = some emitted)
    (inside : ∀ depth image, expected depth = some image →
      emitted = { inline := bytes } ++ image.place → Reaches room (body depth room) image.place) :
    Reaches room (reachDeeper coding depth diff body room) emitted := by
  obtain ⟨_, _, here, there, rfl⟩ := join_eq_some.mp found
  obtain ⟨inner, added, there⟩ := Option.bind_eq_some_iff.mp there
  obtain ⟨image, body', rfl⟩ := Option.map_eq_some_iff.mp there
  cases here
  obtain ⟨after, same, used⟩ := inside inner image body' rfl
  refine ⟨after, ?_, ?_⟩
  · simp only [reachDeeper, added, same, Image.handles_append, nil_append]
  · simpa [Image.outOfLine_append] using used

lemma reaches_vector {raw : Option (α → List UInt8)} {optional : Bool}
    (length : ∀ depth v image, expected depth v = some image → image.inline.length = stride)
    (copies : ∀ copy, raw = some copy → ∀ depth v, expected depth v = some { inline := copy v })
    (encodable : ∀ depth, Encodable limits (reach depth) (expected depth))
    (found : vectorExpected coding expected limit optional depth values = some emitted)
    (fits : room.next + emitted.outOfLine.length ≤ limits.capacity) :
    Reaches room (reachVector limits coding raw reach stride limit values depth room) emitted := by
  cases values with
  | none =>
    cases found
    exact .go room _
  | some values =>
    simp only [vectorExpected, vectorImage] at found
    simp only [reachVector]
    by_cases beyond : values.length > limit
    · rw [if_pos beyond] at found
      cases found
    rw [if_neg beyond] at found ⊢
    by_cases empty : values = []
    · rw [if_pos empty] at found ⊢
      cases found
      exact .go room _
    rw [if_neg empty] at found ⊢
    refine reaches_deeper found fun inner image each split => ?_
    rw [split] at fits
    cases kind : raw with
    | some copy =>
      have whole := imageEach_raw (copies copy kind inner) values
      rw [each] at whole
      cases whole
      refine reaches_memcpy ?_
      simpa [Image.place] using fits
    | none =>
      refine reaches_place (length_imageEach (length inner) image each) fits ?_
      intro room fits
      exact reaches_each (encodable inner) each fits

private lemma reaches_string (optional : Bool) :
    Encodable limits (Ty.reach limits coding cfg (.string limit optional) depth)
      ((Ty.string limit optional).image coding depth) := by
  intro v emitted room found fits
  have vector : vectorExpected coding (fun _ byte => some { inline := [byte] }) limit optional depth
      v = some emitted ∧ ∀ text, v = some text → coding.isValidUtf8 text = true := by
    cases v with
    | none => exact ⟨found, nofun⟩
    | some text =>
      simp only [Ty.image] at found
      split at found
      next valid => exact ⟨found, fun other same => by cases same; exact valid⟩
      · cases found
  have body : Reaches room (reachVector limits coding (some fun byte => [byte])
      (fun _ _ room => .go room) 1 limit v depth room) emitted := by
    refine reaches_vector ?_ ?_ ?_ vector.1 fits
    · rintro _ _ _ same
      cases same
      rfl
    · rintro _ same _ _
      cases same
      rfl
    · rintro _ _ _ room same _
      cases same
      exact .go room _
  obtain ⟨after, same, used⟩ := body
  refine ⟨after, ?_, used⟩
  simp only [Ty.reach, reachString, same]
  cases v with
  | none => simp [Reached.andThen, Reached.go]
  | some text => simp [Reached.andThen, Reached.go, vector.2 text rfl]

private lemma reaches_box {inner : Ty} (encodable : ∀ depth,
      Encodable limits (Ty.reach limits coding cfg inner depth) (inner.image coding depth)) :
    Encodable limits (Ty.reach limits coding cfg (.box inner) depth) ((Ty.box inner).image coding depth) := by
  intro v _ room found fits
  cases v with
  | none =>
    cases found
    exact .go room _
  | some v =>
    simp only [Ty.reach, reachBox]
    refine reaches_deeper found fun depth image object split => ?_
    rw [split] at fits
    refine reaches_place (inner.length_image depth v image object) fits fun room fits => ?_
    exact encodable depth v image room object fits

private lemma reaches_envelope (length : ∀ v image, expected v = some image → image.inline.length = size)
    (encodable : Encodable limits reach expected)
    (found : optionalEnvelopeImage size expected v = some emitted)
    (fits : room.next + emitted.outOfLine.length ≤ limits.capacity) :
    Reaches room (reachEnvelope limits reach size v room) emitted := by
  cases v with
  | none =>
    cases found
    exact .go room _
  | some v =>
    obtain ⟨image, object, rfl⟩ := Option.map_eq_some_iff.mp found
    simp only [reachEnvelope]
    by_cases small : size ≤ inliningSizeThreshold
    · rw [envelopeImage, if_pos small] at fits
      rw [if_pos small, envelopeImage, if_pos small]
      exact (encodable v image room object fits).apart rfl rfl
    · rw [envelopeImage, if_neg small] at fits
      rw [if_neg small, envelopeImage, if_neg small]
      have placed := reaches_place (length v image object) fits fun room fits =>
        encodable v image room object fits
      exact placed.apart rfl rfl

private lemma reaches_table {fields : Fields} (encodable : ∀ depth,
      Encodable limits (Fields.reach limits coding cfg fields depth) (fields.image coding depth)) :
    Encodable limits (Ty.reach limits coding cfg (.table fields) depth)
      ((Ty.table fields).image coding depth) := by
  intro v _ room found fits
  simp only [Ty.image] at found
  simp only [Ty.reach]
  by_cases empty : fields.count v = 0
  · rw [if_pos empty] at found ⊢
    cases found
    exact .go room _
  rw [if_neg empty] at found ⊢
  obtain ⟨_, _, here, there, rfl⟩ := join_eq_some.mp found
  obtain ⟨inner, added, there⟩ := Option.bind_eq_some_iff.mp there
  obtain ⟨image, envelopes, rfl⟩ := Option.map_eq_some_iff.mp there
  cases here
  refine (reaches_place (fields.length_image inner v image envelopes) fits
    fun room fits => ?_).apart rfl rfl
  simp only [reachDeeper, added]
  exact encodable inner v image room envelopes fits

section

variable (processed : ∀ attrs i, cfg.processHandle attrs i = none)
include processed

private lemma reaches_handle {optional : Bool} (v : Handle) (found : handleImage optional v = some emitted) :
    Reaches room (room.handle cfg v attrs optional) emitted := by
  unfold handleImage at found
  unfold Room.handle
  by_cases null : v = 0
  · rw [if_pos null] at found ⊢
    cases optional with
    | false => cases found
    | true =>
      cases found
      exact .go room _
  · rw [if_neg null] at found ⊢
    cases found
    rw [processed]
    exact ⟨_, rfl, Nat.le_refl _⟩

set_option linter.unusedSectionVars false in
mutual

/-- A value that has an image is encoded if there is room for it. -/
lemma encodable_type : (ty : Ty) → (depth : Nat) →
      Encodable limits (Ty.reach limits coding cfg ty depth) (ty.image coding depth)
  | .primitive _, _ => fun v image room found _ => by
    cases found
    exact .go room _
  | .bool, _ => fun v image room found _ => by
    cases found
    exact .go room _
  | .array element count, depth => fun v image room found fits => by
    simp only [Ty.reach]
    split
    next compatible =>
      have raw : imageEach (element.image coding depth) (Vector.toList v) = _ :=
        imageEach_raw (element.image_raw compatible) _
      have same : some image = _ := found.symm.trans raw
      cases same
      exact .go room _
    · exact reaches_each (encodable_type element depth) found fits
  | .vector element limit optional, depth => fun v image room found fits => by
    have expected : vectorExpected coding (fun depth => element.image coding depth) limit optional
        depth v = some image := by
      cases v <;> exact found
    refine reaches_vector element.length_image ?_ (encodable_type element) expected
      fits
    intro _ same depth v
    split at same <;> cases same
    exact element.image_raw ‹_› v
  | .string limit optional, depth => reaches_string optional
  | .handle _ _, _ => fun v _ _ found _ => reaches_handle processed v found
  | .box inner, depth => reaches_box (encodable_type inner)
  | .struct members _, depth => encodable_members members depth
  | .table fields, depth => reaches_table (encodable_fields fields)

lemma encodable_members : (members : Members) → (depth : Nat) →
      Encodable limits (Members.reach limits coding cfg members depth) (members.image coding depth)
  | .nil, _ => fun v image room found _ => by
    cases found
    exact .go room _
  | .cons ty gap rest, depth => fun v image room found fits => by
    obtain ⟨first, more, here, there, rfl⟩ := join_eq_some.mp found
    obtain ⟨zeros, last, same, after, rfl⟩ := join_eq_some.mp there
    cases same
    have both : room.next + (first ++ last).outOfLine.length ≤ limits.capacity := fits
    have inside : room.next + first.outOfLine.length ≤ limits.capacity := by
      rw [Image.outOfLine_append, length_append] at both
      omega
    refine ((encodable_type ty depth v.1 first room here inside).andThen both
      fun room fits => ?_).apart rfl rfl
    exact encodable_members rest depth v.2 last room after fits

lemma encodable_fields : (fields : Fields) → (depth : Nat) →
      Encodable limits (Fields.reach limits coding cfg fields depth) (fields.image coding depth)
  | .nil, _ => fun v image room found _ => by
    have raw : imageEach (fun _ : Envelope => some absentEnvelope) v = _ :=
      imageEach_raw (fun _ => rfl) _
    have same : some image = _ := found.symm.trans raw
    cases same
    exact .go room _
  | .reserved rest, depth => fun v image room found fits => by
    cases v with
    | none =>
      cases found
      exact .go room _
    | some v =>
      obtain ⟨first, more, here, there, rfl⟩ := join_eq_some.mp found
      cases here
      exact (encodable_fields rest depth v.2 more room there fits).apart rfl rfl
  | .field ty rest, depth => fun v image room found fits => by
    cases v with
    | none =>
      cases found
      exact .go room _
    | some v =>
      obtain ⟨first, more, here, there, rfl⟩ := join_eq_some.mp found
      have inside : room.next + first.outOfLine.length ≤ limits.capacity := by
        rw [Image.outOfLine_append, length_append] at fits
        omega
      have envelope := reaches_envelope (ty.length_image depth) (encodable_type ty depth) here inside
      exact envelope.andThen fits fun room fits =>
        encodable_fields rest depth v.2 more room there fits

end

end

/-- `WireEncode` succeeds on a value that has an image, with large enough buffers. -/
lemma wireEncode_of_image (processed : ∀ attrs i, cfg.processHandle attrs i = none)
    (formed : ty.WellFormed) (found : ty.image coding 0 v = some image)
    (positive : 1 ≤ limits.iovecCapacity) (capacity : image.place.outOfLine.length ≤ limits.capacity)
    (slots : image.handles.length ≤ handleCapacity) :
    ∃ iovecs enc, wireEncode coding cfg ty v { limits with memory, handleCapacity } =
        (.ok iovecs image.handles, enc) ∧ enc.overrun = false ∧
      (image.place.outOfLine.length < 2 ^ 32 →
        gather enc.memory iovecs = image.place.outOfLine) := by
  have reaches : Reaches {} ((Room.alloc limits ty.inlineSize {}).andThen
      (Ty.reach limits coding cfg ty 0 v)) image.place := by
    refine reaches_place (ty.length_image 0 v image found) ?_ fun room fits =>
      encodable_type processed ty 0 v image room found fits
    rwa [Nat.zero_add]
  obtain ⟨room, reached, -⟩ := reaches
  have follows := wireEncode_follows coding cfg v memory limits handleCapacity
  rw [reached] at follows
  cases follows with
  | stopped ended => cases ended
  | leaked beyond =>
    simp only [length_nil, Nat.zero_add] at beyond
    exact absurd slots (Nat.not_le.mpr beyond)
  | going room same matched =>
    have encoded : wireEncode coding cfg ty v { limits with memory, handleCapacity } = _ :=
      Encoder.finish_of_sound matched.sound
    obtain ⟨_, sends⟩ := wireEncode_sends formed v
    obtain ⟨emitted, found', handles, -, bytes⟩ := sends encoded
    have same : image = emitted := Option.some.inj (found.symm.trans found')
    subst same
    rw [handles] at encoded
    have fresh : Spare { limits with memory, handleCapacity } := positive
    exact ⟨_, _, encoded, overrun_finished (wireEncode_spare coding cfg v fresh), bytes⟩

end

section

variable {coding : Coding} {cfg : WireDecoder.Config} {ty : Ty} {base size : Nat}
  {memory : Memory} {incoming : List Handle} {after : WireDecoder.Decoder}

/-- An entry of the handle array is what it was, what it was replaced by, or
cleared. -/
def Follow (cfg : WireDecoder.Config) (before after : WireDecoder.Decoder) : Prop :=
  ∀ i : Nat, after.handles[i]? = before.handles[i]? ∨
    (∃ attrs successor, cfg.processHandle attrs i = .replaced successor ∧
      after.handles[i]? = some successor) ∨
    after.handles[i]? = some 0

lemma Follow.set (entry : dec.handles[dec.index]? = some handle ∨
      (∃ attrs, cfg.processHandle attrs dec.index = .replaced handle) ∨ handle = 0)
    (inside : dec.index < dec.handles.length)
    (handles : after.handles = dec.handles.set dec.index handle) : Follow cfg dec after := by
  intro i
  rw [handles]
  by_cases here : dec.index = i
  · subst here
    rw [getElem?_set_self inside]
    rcases entry with same | ⟨attrs, check⟩ | rfl
    · exact .inl same.symm
    · exact .inr (.inl ⟨attrs, handle, check, rfl⟩)
    · exact .inr (.inr rfl)
  · exact .inl (getElem?_set_ne here)

private lemma follow_respected (cfg : WireDecoder.Config) : WireDecoder.Respected cfg (Follow cfg) where
  refl _ _ := .inl rfl
  trans first second i := by
    rcases second i with same | rest
    · rw [same]
      exact first i
    · exact .inr rest
  point _ _ _ _ := .inl rfl
  alloc dec size := by
    unfold WireDecoder.Decoder.alloc
    simp only
    repeat' split
    all_goals exact fun _ => .inl rfl
  setError _ _ _ := .inl rfl
  close dec count i := (getElem?_closeNextNHandles dec count i).imp_right (.inr ·.2)
  handle dec pos attrs optional := by
    unfold WireDecoder.Decoder.decodeHandle
    split
    · cases found : dec.handles[dec.index]? with
      | none => exact fun _ => .inl rfl
      | some handle =>
        simp only
        obtain ⟨inside, -⟩ := List.getElem?_eq_some_iff.mp found
        split
        · exact fun _ => .inl rfl
        cases check : cfg.processHandle attrs dec.index with
        | unchanged => exact Follow.set (.inl found) inside rfl
        | replaced => exact Follow.set (.inr (.inl ⟨attrs, check⟩)) inside rfl
        | refused cleared =>
          cases cleared with
          | false => exact Follow.set (.inl found) inside rfl
          | true => exact Follow.set (.inr (.inr rfl)) inside rfl
    · repeat' split
      all_goals exact fun _ => .inl rfl

private lemma wireDecode_follow (accepted : WireDecoder.wireDecode coding cfg ty
      { base, size, memory, handles := incoming } = (none, after)) :
    Follow cfg { base, size, memory, handles := incoming } after := by
  have kept := follow_respected cfg
  have run : Follow cfg { base, size, memory, handles := incoming }
      (WireDecoder.Decoder.allocThen { base, size, memory, handles := incoming } ty.inlineSize
        (WireDecoder.Ty.decode coding cfg ty 0)) :=
    kept.allocThen (kept.decode ty 0)
  obtain ⟨_, same⟩ := checkConsumed_same (WireDecoder.Decoder.allocThen
    { base, size, memory, handles := incoming } ty.inlineSize
    (WireDecoder.Ty.decode coding cfg ty 0))
  unfold WireDecoder.wireDecode WireDecoder.Decoder.finish at accepted
  rw [same] at accepted
  split at accepted <;> cases accepted
  exact run

/-- Encoding the object that `WireDecode` has made of a message, none of whose
envelopes it has skipped, gives the bytes of the message and its handles, each of
them as the rights check left it. -/
theorem wireEncode_wireDecode (wellFormed : ty.WellFormed)
    (fresh : ∀ attrs i successor, cfg.processHandle attrs i = .replaced successor → successor ≠ 0)
    (positive : 0 < base) (addr : base + size < 2 ^ 64)
    (accepted : WireDecoder.wireDecode coding cfg ty
      { base, size, memory, handles := incoming } = (none, after))
    (known : Ty.known ty (Ty.view base ty after.memory 0) = true) {encoding : Config}
    (processed : ∀ attrs i, encoding.processHandle attrs i = none)
    (backing : Memory) (limits : Limits) (positiveIovecs : 1 ≤ limits.iovecCapacity)
    (small : size < 2 ^ 32 - 1) (capacity : size ≤ limits.capacity) {handleCapacity : Nat}
    (slots : incoming.length ≤ handleCapacity) :
    ∃ iovecs handles enc,
      wireEncode coding encoding ty (Ty.view base ty after.memory 0)
          { limits with memory := backing, handleCapacity } = (.ok iovecs handles, enc) ∧
        enc.overrun = false ∧ gather enc.memory iovecs = load memory 0 size ∧
        Successors cfg incoming handles ∧
        ((∀ attrs i successor,
          cfg.processHandle attrs i ≠ .replaced successor) → handles = incoming) := by
  obtain ⟨-, length, described⟩ := wireDecode_sound wellFormed fresh positive addr accepted
  obtain ⟨image, found, placed⟩ := Option.map_eq_some_iff.mp (described.image known)
  have bytes : image.place.outOfLine = load memory 0 size := by rw [placed]
  have handles : image.handles = after.handles := congrArg Image.handles placed
  have total : image.place.outOfLine.length = size := bytes ▸ length_load 0 size
  obtain ⟨iovecs, enc, encoded, within, emitted⟩ := wireEncode_of_image processed wellFormed
    found positiveIovecs (total ▸ capacity) (handles ▸ length ▸ slots)
  have follow := wireDecode_follow accepted
  -- No entry was cleared.
  have entries : ∀ i : Nat, after.handles[i]? = incoming[i]? ∨
      ∃ attrs successor, cfg.processHandle attrs i = .replaced successor ∧
        after.handles[i]? = some successor := by
    intro i
    rcases follow i with same | replaced | zero
    · exact .inl same
    · exact .inr replaced
    · exact absurd rfl (described.present known 0 (mem_of_getElem? zero))
  refine ⟨iovecs, after.handles, enc, handles ▸ encoded, within,
    (emitted (by omega)).trans bytes, ⟨length, entries⟩, fun unreplaced => ?_⟩
  apply ext_getElem?
  intro i
  rcases entries i with same | ⟨attrs, successor, check, -⟩
  · exact same
  · exact absurd check (unreplaced attrs i successor)

end

/-- A message with a vector of bytes and a table with a handle. -/
theorem wireEncode_wireDecode_struct :
    let coding : Coding := ⟨false, 2, fun _ => true, rfl⟩
    let cfg : WireDecoder.Config := { processHandle := fun _ _ => .unchanged }
    let received := ofBytes ([3, 0, 0, 0, 0, 0, 0, 0] ++ replicate 8 255 ++
      [1, 0, 0, 0, 0, 0, 0, 0] ++ replicate 8 255 ++ [1, 2, 3, 0, 0, 0, 0, 0] ++
      [255, 255, 255, 255, 1, 0, 1, 0])
    let decoded := WireDecoder.wireDecode coding cfg letter
      { base := 4096, size := 48, memory := received, handles := [7] }
    ∃ iovecs handles enc,
      wireEncode coding { processHandle := fun _ _ => none } letter
          (Ty.view 4096 letter decoded.2.memory 0)
          { iovecCapacity := 1, handleCapacity := 1, capacity := 48, memory := fun _ => 0 } =
        (.ok iovecs handles, enc) ∧
      enc.overrun = false ∧ gather enc.memory iovecs = load received 0 48 ∧
      Successors cfg [7] handles ∧
      ((∀ attrs i successor,
        cfg.processHandle attrs i ≠ .replaced successor) → handles = [7]) := by
  intro coding cfg received decoded
  have unreplaced : ∀ attrs i successor,
      cfg.processHandle attrs i = .replaced successor → successor ≠ 0 := by
    intro attrs i successor replaced
    cases replaced
  exact wireEncode_wireDecode letter_wellFormed unreplaced (by decide) (by decide)
    (Prod.ext (by decide +kernel) rfl) (by decide +kernel) (fun _ _ => rfl) (fun _ => 0) ⟨48, 1⟩
    (by decide) (by decide) (by decide) (by decide)

end FuchsiaSdk.WireCanonical
