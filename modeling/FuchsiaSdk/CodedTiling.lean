import FuchsiaSdk.CodedExtent

/-! A message that is validated or decoded is tiled by its objects: the primary
object and, in the order of the walk, the objects out of line. Whatever the buffer
holds, no object that the walker comes to lies outside it. -/
namespace FuchsiaSdk.CodedTiling
open Memory WireFormat CodingTable CodedDecoder CodedExtent Tiling

/-! ## The walker with bounds checks -/

section

variable (cfg : Config) (outside : Decoder → Outcome)

/-- The walk over an object, unless the object does not lie in the buffer. -/
def within (size : Nat) (walk : Nat → Decoder → Outcome) (pos : Nat) (dec : Decoder) :
    Outcome :=
  if pos + size ≤ dec.size then walk pos dec else outside dec

mutual

/-- `CodedType.walk`, with a check at each object. -/
def CodedType.walkWithin : CodedType → (depth : Nat) → Nat → Decoder → Outcome
  | .primitive subtype, _ => within outside subtype.size (walkPrimitive subtype)
  | .enum underlying strict validate, _ =>
    within outside underlying.size (walkEnum underlying strict validate)
  | .bits underlying strict mask, _ =>
    within outside underlying.size (walkBits underlying strict mask)
  | .struct isEmpty size elements, depth =>
    within outside size (walkStruct isEmpty (Elements.walkWithin elements depth))
  | .structPointer isEmpty size elements, depth =>
    within outside 8 (walkStructPointer cfg size
      (fun depth => within outside size (walkStruct isEmpty (Elements.walkWithin elements depth)))
      depth)
  | .table isResource fields, depth =>
    within outside 16 (walkTable cfg isResource (TableFields.payloadsWithin fields) depth)
  | .xunion nullable strict isResource fields, depth =>
    within outside 16
      (walkXUnion cfg nullable strict isResource (UnionFields.payloadsWithin fields) depth)
  | .array elementSize arraySize element, depth =>
    within outside arraySize (walkIterable element.needWalk (CodedType.walkWithin element depth)
      elementSize arraySize)
  | .string nullable maxSize, depth => within outside 16 (walkString cfg nullable maxSize depth)
  | .handle nullable attrs, _ => within outside 4 (walkHandle cfg nullable attrs)
  | .vector nullable maxCount elementSize element, depth =>
    within outside 16 (walkVector cfg nullable maxCount elementSize element.needWalk
      (fun depth => CodedType.walkWithin element depth) depth)

/-- `Elements.walk`, with a check at each field and each padding. -/
def Elements.walkWithin : Elements → (depth pos : Nat) → Decoder → Outcome
  | .nil, _, _, dec => .go dec
  | .field off ty rest, depth, pos, dec =>
    (CodedType.walkWithin ty depth (pos + off) dec).andThen
      (Elements.walkWithin rest depth pos)
  | .padding padding rest, depth, pos, dec =>
    (within outside padding.mask.length (fun pos dec => dec.visitInternalPadding pos padding.mask)
      (pos + padding.offset) dec).andThen (Elements.walkWithin rest depth pos)

def TableFields.payloadsWithin : TableFields → List (Nat × Payload)
  | .nil => []
  | .field ordinal ty rest =>
    (ordinal, ⟨ty.typeSize, fun depth => CodedType.walkWithin ty depth⟩) ::
      TableFields.payloadsWithin rest

def UnionFields.payloadsWithin : UnionFields → List (Option Payload)
  | .nil => []
  | .reserved rest => none :: UnionFields.payloadsWithin rest
  | .field ty rest =>
    some ⟨ty.typeSize, fun depth => CodedType.walkWithin ty depth⟩ ::
      UnionFields.payloadsWithin rest

end

end

/-! ## The checks hold -/

/-- Below `next_out_of_line_` the two walks do the same. -/
def Matches (size : Nat) (walk checked : Nat → Decoder → Outcome) : Prop :=
  ∀ pos dec, Placed dec → pos + size ≤ dec.next → checked pos dec = walk pos dec

/-- A payload type, and the same with checks. -/
structure PayloadMatches (payload checked : Payload) : Prop where
  size : checked.size = payload.size
  walk : ∀ depth, Matches payload.size (payload.walk depth) (checked.walk depth)
  spanning : PayloadSpanning payload

section

variable {cfg : Config} {outside : Decoder → Outcome} {dec : Decoder} {size stride : Nat}
  {walk checked : Nat → Decoder → Outcome} {isEmpty needWalk nullable strict isResource : Bool}

lemma matches_within (same : Matches size walk checked) :
    Matches size walk (within outside size checked) := by
  intro pos dec placed below
  rw [within, if_pos (Nat.le_trans below placed.inside)]
  exact same pos dec placed below

lemma andThen_congr {outcome : Outcome} (same : ∀ middle, outcome = .go middle → body' middle = body middle) :
    outcome.andThen body' = outcome.andThen body := by
  cases outcome with
  | go middle => exact same middle rfl
  | exit | abort => rfl

lemma guardDepth_congr (same : ∀ depth, body' depth dec = body depth dec) :
    guardDepth depth body' dec = guardDepth depth body dec :=
  ite_congr rfl (fun _ => rfl) fun _ => same _

private lemma matches_each (same : Matches stride walk checked) (spanning : Spanning stride walk)
    (rounds : Nat) :
    Matches (rounds * stride) (walkEach walk stride rounds) (walkEach checked stride rounds) := by
  induction rounds with
  | zero => exact fun _ _ _ _ => rfl
  | succ rounds ih =>
    intro pos dec placed _
    have split : (rounds + 1) * stride = stride + rounds * stride := by ring
    simp only [walkEach]
    rw [same pos dec placed (by omega)]
    refine andThen_congr fun middle gone => ?_
    have spans := spanning pos dec middle placed (by omega) gone
    have next := spans.next
    exact ih (pos + stride) middle spans.placed (by omega)

lemma matches_iterable (same : Matches stride walk checked) (spanning : Spanning stride walk)
    (whole : stride ∣ endOffset) : Matches endOffset (walkIterable needWalk walk stride endOffset)
      (walkIterable needWalk checked stride endOffset) := by
  intro pos dec placed _
  refine ite_congr rfl (fun _ => ?_) fun _ => rfl
  refine matches_each same spanning (rounds stride endOffset) pos dec placed ?_
  rwa [rounds_mul whole]

lemma matches_pointer (same : Matches size walk checked) :
    dec.visitPointer cfg pointee ptr size checked = dec.visitPointer cfg pointee ptr size walk := by
  rcases visitPointer_cases with
    ⟨_, fits, goes⟩ | ⟨_, _, fails⟩
  · rw [goes, goes]
    refine same _ _ (.place fits) ?_
    exact le_addOutOfLine fits.added
  · rw [fails, fails]

lemma matches_struct (same : Matches size walk checked) :
    Matches size (walkStruct isEmpty walk) (walkStruct isEmpty checked) :=
  fun pos dec placed below =>
    ite_congr rfl (fun _ => rfl) fun _ => same pos dec placed below

private lemma matches_structPointer {walk checked : (depth pos : Nat) → Decoder → Outcome}
    (same : ∀ depth, Matches size (walk depth) (checked depth)) :
    Matches 8 (walkStructPointer cfg size walk depth) (walkStructPointer cfg size checked depth) := by
  intro pos _ _ _
  refine ite_congr rfl (fun _ => rfl) fun _ => ?_
  exact guardDepth_congr fun depth => matches_pointer (same depth)

private lemma matches_known {payload checked : Payload} (same : PayloadMatches payload checked)
    (placed : Placed dec) (below : pos + 8 ≤ dec.next) :
    walkKnownEnvelope cfg checked depth pos envelope dec =
      walkKnownEnvelope cfg payload depth pos envelope dec := by
  unfold walkKnownEnvelope
  rw [same.size]
  refine ite_congr rfl (fun small => ite_congr rfl (fun _ => rfl) fun _ => ?_)
    fun _ => ite_congr rfl (fun _ => rfl) fun _ => ?_
  · have four : payload.size ≤ 4 := small
    refine guardDepth_congr fun depth => congrArg (Outcome.andThen · _) (andThen_congr ?_)
    intro _ gone
    obtain ⟨_, rfl⟩ := visitInternalPadding_eq_go.mp gone
    exact same.walk depth pos dec placed (by omega)
  · refine guardDepth_congr fun depth => matches_pointer (fun object entered placed below => ?_)
    rw [same.walk depth object entered placed below]

lemma matches_envelope {payload checked : Option Payload} (same : Option.Rel PayloadMatches payload checked) :
    Matches 8 (walkEnvelope cfg payload isResource depth) (walkEnvelope cfg checked isResource depth) := by
  intro _ _ placed below
  refine ite_congr rfl (fun _ => rfl) fun _ => ite_congr rfl (fun _ => rfl) fun _ => ?_
  cases same with
  | none => rfl
  | some same => exact matches_known same placed below

private lemma spanning_of_matches {payload checked : Option Payload}
    (same : Option.Rel PayloadMatches payload checked) : ∀ known ∈ payload, PayloadSpanning known := by
  intro known found
  cases same with
  | none => cases found
  | some same =>
    cases found
    exact same.spanning

private lemma matches_envelopes (ordinal : Nat)
    {fields checked : List (Nat × Payload)} (same : RelFields PayloadMatches fields checked) :
    Matches (count * 8) (walkEnvelopes cfg isResource depth count ordinal fields)
      (walkEnvelopes cfg isResource depth count ordinal checked) := by
  induction count generalizing ordinal fields checked with
  | zero => exact fun _ _ _ _ => rfl
  | succ count ih =>
    intro pos dec placed _
    obtain ⟨field, rest⟩ := nextField_rel same
    simp only [walkEnvelopes]
    rw [matches_envelope field pos dec placed (by omega)]
    refine andThen_congr fun middle gone => ?_
    have spans := spanning_envelope (spanning_of_matches field) pos dec middle placed
      (by omega) gone
    have next := spans.next
    exact ih (ordinal + 1) rest (pos + 8) middle spans.placed (by omega)

private lemma matches_table (isResource : Bool) {fields checked : List (Nat × Payload)}
    (same : RelFields PayloadMatches fields checked) (depth : Nat) :
    Matches 16 (walkTable cfg isResource fields depth) (walkTable cfg isResource checked depth) := by
  intro _ _ _ _
  unfold walkTable
  refine ite_congr rfl (fun _ => rfl) fun _ => ite_congr rfl (fun _ => rfl) fun _ => ?_
  exact guardDepth_congr fun depth =>
    matches_pointer (matches_envelopes 1 same)

private lemma matches_xunion (nullable strict isResource : Bool) {fields checked : List (Option Payload)}
    (same : List.Forall₂ (Option.Rel PayloadMatches) fields checked) (depth : Nat) :
    Matches 16 (walkXUnion cfg nullable strict isResource fields depth)
      (walkXUnion cfg nullable strict isResource checked depth) := by
  intro pos dec placed below
  have found := join_rel same (word dec.memory pos 8 - 1)
  unfold walkXUnion
  simp only [isNone_of_rel found]
  refine ite_congr rfl (fun _ => rfl) fun _ => ite_congr rfl (fun _ => rfl) fun _ =>
    ite_congr rfl (fun _ => rfl) fun _ => ?_
  exact matches_envelope found (pos + 8) dec placed below

private lemma matches_vector (nullable : Bool) {walk checked : (depth pos : Nat) → Decoder → Outcome}
    (same : ∀ depth, Matches stride (walk depth) (checked depth))
    (spanning : ∀ depth, Spanning stride (walk depth)) (maxCount depth : Nat) :
    Matches 16 (walkVector cfg nullable maxCount stride needWalk walk depth)
      (walkVector cfg nullable maxCount stride needWalk checked depth) := by
  intro pos _ _ _
  unfold walkVector
  refine ite_congr rfl (fun _ => rfl) fun _ => ite_congr rfl (fun _ => rfl) fun _ =>
    ite_congr rfl (fun _ => rfl) fun _ => guardDepth_congr fun depth => ?_
  exact matches_pointer (matches_iterable (same depth) (spanning depth) (Nat.dvd_mul_left ..))

end

/-- The walk over the elements of a struct below `next_out_of_line_`. -/
def MatchesTo (stop : Nat) (walk checked : Nat → Decoder → Outcome) : Prop :=
  ∀ pos dec, Placed dec → pos + stop ≤ dec.next → checked pos dec = walk pos dec

mutual

/-- No object that the walker comes to lies outside the buffer. -/
lemma matches_type (cfg : Config) (outside : Decoder → Outcome) :
    (ty : CodedType) → ty.WellFormed → ty.Padded → (depth : Nat) →
    Matches ty.typeSize (CodedType.walk cfg ty depth) (CodedType.walkWithin cfg outside ty depth)
  | .primitive _, _, _, _ => matches_within fun _ _ _ _ => rfl
  | .enum _ _ _, _, _, _ => matches_within fun _ _ _ _ => rfl
  | .bits _ _ _, _, _, _ => matches_within fun _ _ _ _ => rfl
  | .struct _ size elements, formed, padded, depth =>
    matches_within (matches_struct (matches_elements elements 0 size formed padded.2 depth))
  | .structPointer _ size elements, formed, padded, depth =>
    matches_within (matches_structPointer (fun depth => matches_within (matches_struct
      (matches_elements elements 0 size formed padded.2 depth))))
  | .table isResource fields, formed, padded, depth => by
    have known := matches_tableFields cfg outside fields formed padded
    have step := @matches_table cfg isResource _ _ known depth
    exact matches_within step
  | .xunion nullable strict isResource fields, formed, padded, depth => by
    have known := matches_unionFields cfg outside fields formed padded
    have step := @matches_xunion cfg nullable strict isResource _ _ known depth
    exact matches_within step
  | .array _ _ element, ⟨formed, same, whole⟩, padded, depth => by
    subst same
    exact matches_within (matches_iterable (matches_type cfg outside element formed padded depth)
      (spanning_type element formed depth) whole)
  | .string _ _, _, _, _ => matches_within fun _ _ _ _ => rfl
  | .handle _ _, _, _, _ => matches_within fun _ _ _ _ => rfl
  | .vector nullable maxCount _ element, ⟨formed, same⟩, padded, depth => by
    subst same
    have step := @matches_vector cfg _ element.needWalk nullable _ _
      (matches_type cfg outside element formed padded)
      (spanning_type element formed) maxCount depth
    exact matches_within step

lemma matches_elements : (elements : Elements) → (start stop : Nat) → elements.WellFormed start stop →
    elements.Padded start stop → (depth : Nat) → MatchesTo stop (Elements.walk cfg elements depth)
      (Elements.walkWithin cfg outside elements depth)
  | .nil, _, _, _, _, _ => fun _ _ _ _ => rfl
  | .field off ty rest, start, stop, ⟨formed, _, inside, others⟩, ⟨padded, more⟩, depth => by
    intro pos dec placed below
    simp only [Elements.walkWithin, Elements.walk]
    rw [matches_type cfg outside ty formed padded depth (pos + off) dec placed (by omega)]
    refine andThen_congr fun middle gone => ?_
    have spans := spanning_type ty formed depth (pos + off) dec middle placed
      (by omega) gone
    have next := spans.next
    exact matches_elements rest _ stop others more depth pos middle
      spans.placed (by omega)
  | .padding padding rest, start, stop, formed, ⟨inside, _, more⟩, depth => by
    intro pos dec placed below
    have fits := placed.inside
    simp only [Elements.walkWithin, Elements.walk]
    rw [within, if_pos (by omega)]
    refine andThen_congr fun middle gone => ?_
    obtain ⟨_, rfl⟩ := visitInternalPadding_eq_go.mp gone
    exact matches_elements rest start stop formed more depth pos dec
      placed below

lemma matches_tableFields (cfg : Config) (outside : Decoder → Outcome) :
    (fields : TableFields) → fields.WellFormed → fields.Padded →
    RelFields PayloadMatches (TableFields.payloads cfg fields) (TableFields.payloadsWithin cfg outside fields)
  | .nil, _, _ => .nil
  | .field _ ty rest, ⟨formed, others⟩, ⟨padded, more⟩ =>
    .cons ⟨rfl, rfl, matches_type cfg outside ty formed padded,
      spanning_type ty formed⟩ (matches_tableFields cfg outside rest others more)

lemma matches_unionFields (cfg : Config) (outside : Decoder → Outcome) :
    (fields : UnionFields) → fields.WellFormed → fields.Padded →
    List.Forall₂ (Option.Rel PayloadMatches) (UnionFields.payloads cfg fields)
      (UnionFields.payloadsWithin cfg outside fields)
  | .nil, _, _ => .nil
  | .reserved rest, others, more =>
    .cons .none (matches_unionFields cfg outside rest others more)
  | .field ty rest, ⟨formed, others⟩, ⟨padded, more⟩ =>
    .cons (.some ⟨rfl, matches_type cfg outside ty formed padded,
      spanning_type ty formed⟩) (matches_unionFields cfg outside rest others more)

end

/-! ## Objects out of line -/

/-- The objects out of line that were visited lie in the buffer. -/
structure Inside (limit : Nat) (dec : Decoder) : Prop where
  size : dec.size = limit
  objects : ∀ object ∈ extents dec.visits, object.stop ≤ limit

section

variable {limit : Nat} {before after dec : Decoder}

lemma Inside.of_same (inside : Inside limit before) (kept : after.size = before.size)
    (same : extents after.visits = extents before.visits) : Inside limit after := by
  refine ⟨kept.trans inside.size, ?_⟩
  rw [same]
  exact inside.objects

/-- A visit that is not for an object out of line. -/
lemma Inside.visit (inside : Inside limit dec) {visit : Visit} (other : extent visit = none) :
    Inside limit (dec.visit visit) := by
  refine inside.of_same rfl ?_
  simp [Decoder.visit, extents, other]

lemma Inside.unknownHandles (inside : Inside limit dec) (leave : Bool) (count : Nat) :
    Inside limit (dec.unknownHandles leave count).decoder := by
  unfold Decoder.unknownHandles
  repeat' split
  all_goals first
    | exact inside
    | cases leave <;> exact inside.of_same rfl rfl

lemma lockstep_inside (cfg : Config) (limit : Nat) : Lockstep cfg cfg
    fun dec outcome _ => Inside limit dec → Inside limit outcome.decoder where
  mode := rfl
  utf8 := rfl
  go _ := id
  exit _ _ := id
  andThen {_ left _ _ _} first more inside := by
    cases left with
    | go middle => exact more middle (first inside)
    | exit | abort => exact first inside
  place {dec _ ptr length next} fits inside := by
    have visited : (dec.place cfg.mode ptr length next).visits =
        dec.visits ++ [.object dec.next length] := by cases cfg.mode <;> rfl
    refine ⟨(place_size ..).trans inside.size, fun object mem => ?_⟩
    rw [Outcome.decoder, visited, extents_append] at mem
    rcases List.mem_append.mp mem with old | new
    · exact inside.objects object old
    cases List.mem_singleton.mp new
    have room := fits.inside
    rwa [addOutOfLine_eq_align fits.added, inside.size] at room
  handle dec pos attrs inside := by
    have visited : Inside limit (dec.visit (.handle attrs dec.index)) := inside.visit rfl
    unfold Decoder.visitHandle
    simp only
    repeat' split
    all_goals first
      | exact inside
      | exact visited.of_same rfl rfl
  unknown dec envelope pos isResource _ inside := by
    have visited : Inside limit (dec.visit (.unknown envelope)) := inside.visit rfl
    unfold Decoder.visitUnknownEnvelope
    simp only
    split
    · exact visited.of_same rfl rfl
    split
    · split
      · exact visited
      rename_i converted
      obtain ⟨bytes, _, rfl⟩ := CodedDecodeHandles.convertEnvelope_memory converted
      have written : Inside limit ((dec.visit (.unknown envelope)).assign .decode
        pos bytes) := visited.of_same rfl rfl
      exact written.unknownHandles ..
    · exact visited.unknownHandles ..

end

/-! ## Messages -/

section

variable {cfg : Config} {ty : CodedType} {msg : Message} {dec start after : Decoder}
  {primary next : Nat} {objects : List Extent}

/-- The objects of a message, in the order in which the walker comes to them. -/
structure Tiled (msg : Message) (objects : List Extent) : Prop where
  consecutive : objects.IsChain fun before after => after.position = before.stop
  disjoint : objects.Pairwise fun before after => before.stop ≤ after.position
  covers : ∀ addr, addr < msg.size ↔ ∃ object ∈ objects, object.position ≤ addr ∧ addr < object.stop
  zero : ∀ object ∈ objects, object.ZeroPadded msg.memory

lemma Tiled.of_tiles (tiles : Tiles msg.memory 0 objects msg.size) : Tiled msg objects where
  consecutive := tiles.consecutive
  disjoint := tiles.disjoint
  covers addr := by
    rw [← tiles.covers addr]
    exact ⟨fun below => ⟨Nat.zero_le _, below⟩, And.right⟩
  zero object mem := (tiles.mem mem).2.2

lemma primaryObjectSize_eq (sized : primaryObjectSize ty size = .ok (primary, next)) :
    ty.typeSize = primary ∧ next = align primary ∧ next ≤ size := by
  have fit : ∀ length, (if align length > size then Except.error DecodeError.bufferTooSmall
      else if align length > 2 ^ 32 - 1 then .error .firstOutOfLineOverflow
      else .ok (length, align length)) = .ok (primary, next) →
      length = primary ∧ next = align primary ∧ next ≤ size := by
    intro length found
    split at found
    · cases found
    rename_i large
    split at found <;> cases found
    exact ⟨rfl, rfl, Nat.not_lt.mp large⟩
  cases ty with
  | struct _ length => exact fit length sized
  | table | xunion => exact fit 16 sized
  | _ => cases sized

lemma placed_start (sized : primaryObjectSize ty msg.size = .ok (primary, next))
    (size : start.size = msg.size) (first : start.next = next) :
    Placed start ∧ 0 + ty.typeSize ≤ start.next := by
  obtain ⟨rfl, rfl, _⟩ := primaryObjectSize_eq sized
  have above := le_align ty.typeSize
  refine ⟨⟨by omega, ?_⟩, by omega⟩
  rw [first]
  exact dvd_align _

/-- A walk that goes on and ends with the buffer has tiled it. -/
lemma tiled_of_walk (formed : ty.WellFormed) (sized : primaryObjectSize ty msg.size = .ok (primary, next))
    (clean : (load msg.memory primary (next - primary)).any (· ≠ 0) = false)
    (size : start.size = msg.size) (first : start.next = next)
    (memory : start.memory = msg.memory) (visits : start.visits = [])
    (gone : CodedType.walk cfg ty 0 0 start = .go after) (last : after.next = msg.size) :
    Tiled msg (⟨0, primary⟩ :: extents after.visits) := by
  obtain ⟨placed, below⟩ := placed_start sized size first
  obtain ⟨_, stop, _⟩ := primaryObjectSize_eq sized
  have spans := spanning_type ty formed 0 0 start after placed below gone
  obtain ⟨_, visited⟩ := spans.visited
  have tiles := visited.tiles
  rw [memory, first, last] at tiles
  rw [visited.visits, visits]
  refine .of_tiles ⟨rfl, fun addr low high => ?_, ?_⟩
  · simp only [Extent.stop, Nat.zero_add, ← stop] at low high
    rw [List.any_eq_false] at clean
    have loaded := getElem?_load msg.memory primary (next - primary) (addr - primary)
    rw [if_pos (by omega), Nat.add_sub_cancel' low] at loaded
    simpa using clean _ (List.mem_of_getElem? loaded)
  · simp only [Extent.stop, Nat.zero_add, ← stop]
    exact tiles

lemma Inside.finish (inside : Inside limit outcome.decoder) : Inside limit (finish outcome).decoder := by
  cases outcome with
  | abort dec => exact inside
  | exit _ dec => exact inside.of_same rfl rfl
  | go dec =>
    simp only [CodedDecoder.finish]
    repeat' split
    all_goals exact inside.of_same rfl rfl

private lemma finish_eq_go (gone : finish outcome = .go dec) :
    ∃ after, outcome = .go after ∧ after.next = after.size ∧ dec.visits = after.visits := by
  cases outcome with
  | abort | exit => cases gone
  | go after =>
    simp only [finish] at gone
    split at gone
    · cases gone
    rename_i ended
    split at gone <;> cases gone
    exact ⟨after, rfl, not_not.mp ended, rfl⟩

/-- Before the walk nothing has been visited. -/
lemma inside_start (size : start.size = msg.size) (visits : start.visits = []) :
    Inside msg.size start := by
  refine ⟨size, ?_⟩
  rw [visits]
  exact nofun

/-- What holds of the outcome of a call for a message. -/
structure Outlined (ty : CodedType) (msg : Message) (outcome : Outcome) : Prop where
  inside : Inside msg.size outcome.decoder
  tiled : ∀ dec, outcome = .go dec →
    ∃ primary next, primaryObjectSize ty msg.size = .ok (primary, next) ∧
      Tiled msg (⟨0, primary⟩ :: extents dec.visits)

lemma outlined_exit (size : start.size = msg.size)
    (visits : start.visits = []) : Outlined ty msg (.exit error start) :=
  ⟨inside_start size visits, nofun⟩

private lemma outlined_decode (formed : ty.WellFormed) (cfg : Config) (msg : Message) :
    Outlined ty msg (fidlDecodeImpl cfg ty msg) := by
  rcases entry_cases msg 0 with ⟨_, failed⟩ | ⟨primary, next, begins, walked⟩
  · rw [(failed cfg).1]
    exact outlined_exit rfl rfl
  have inside := (lockstep_inside { cfg with mode := .decode } msg.size).walk ty 0 0
    (msg.decoder next) (inside_start rfl rfl)
  rw [(walked cfg).1]
  refine ⟨inside.finish, fun dec gone => ?_⟩
  obtain ⟨_, gone, ended, visits⟩ := finish_eq_go gone
  rw [gone] at inside
  refine ⟨primary, next, begins.sized, ?_⟩
  rw [visits]
  exact tiled_of_walk formed begins.sized begins.clean rfl rfl rfl rfl gone
    (ended.trans inside.size)

private lemma outlined_validate (formed : ty.WellFormed) (cfg : Config) (msg : Message)
    (numHandles : Nat) : Outlined ty msg (fidlValidateImpl cfg ty msg numHandles) := by
  rcases entry_cases msg numHandles with ⟨_, failed⟩ | ⟨primary, next, begins, entered⟩
  · rw [(failed cfg).2]
    exact outlined_exit rfl rfl
  let start := { msg.decoder next with handles := [], numHandles, current := [] }
  have inside := (lockstep_inside { cfg with mode := .validate, hlcpp := false }
    msg.size).walk ty 0 0 start (inside_start rfl rfl)
  rw [(entered cfg).2]
  cases walked : CodedType.walk { cfg with mode := .validate, hlcpp := false } ty 0 0 start with
  | abort | exit =>
    rw [walked] at inside
    exact ⟨inside, fun _ => Outcome.noConfusion⟩
  | go =>
    rw [walked] at inside
    simp only [Outcome.andThen]
    split
    · exact ⟨inside, fun _ => Outcome.noConfusion⟩
    rename_i ended
    split
    · exact ⟨inside, fun _ => Outcome.noConfusion⟩
    refine ⟨inside, fun dec gone => ⟨primary, next, begins.sized, ?_⟩⟩
    cases gone
    exact tiled_of_walk formed begins.sized begins.clean rfl rfl rfl rfl walked
      ((not_not.mp ended).trans inside.size)

/-- Every object that the walker comes to lies in the buffer, for whatever would be
done about one that does not, and the message is tiled if it is accepted. -/
theorem message_tiled (wellFormed : ty.WellFormed) (padded : ty.Padded) (cfg : Config)
    (msg : Message) (numHandles : Nat) :
    (∀ primary next, primaryObjectSize ty msg.size = .ok (primary, next) →
      primary ≤ msg.size ∧ ∀ mode start outside, start.size = msg.size → start.next = next →
          CodedType.walkWithin { cfg with mode } outside ty 0 0 start =
            CodedType.walk { cfg with mode } ty 0 0 start) ∧
    ∀ outcome, outcome = fidlDecodeImpl cfg ty msg ∨
        outcome = fidlValidateImpl cfg ty msg numHandles →
      (∀ object ∈ extents outcome.decoder.visits, object.stop ≤ msg.size) ∧
        ∀ dec, outcome = .go dec →
          ∃ primary next, primaryObjectSize ty msg.size = .ok (primary, next) ∧
            Tiled msg (⟨0, primary⟩ :: extents dec.visits) := by
  constructor
  · intro primary next sized
    obtain ⟨_, stop, room⟩ := primaryObjectSize_eq sized
    have above := le_align primary
    refine ⟨by omega, fun mode start outside size first => ?_⟩
    obtain ⟨placed, below⟩ := placed_start sized size first
    exact matches_type { cfg with mode } outside ty wellFormed padded 0 0 start placed below
  · rintro outcome (rfl | rfl)
    · have outlined := outlined_decode wellFormed cfg msg
      exact ⟨outlined.inside.objects, outlined.tiled⟩
    · have outlined := outlined_validate wellFormed cfg msg numHandles
      exact ⟨outlined.inside.objects, outlined.tiled⟩

/-- A struct with a string. -/
def named : CodedType := .struct false 16 (.field 0 (.string false 8) .nil)

def namedMessage : Message where
  base := 8
  size := 24
  memory := ofBytes ([1, 0, 0, 0, 0, 0, 0, 0] ++ List.replicate 8 255 ++ [97])
  handles := []

def anyHandle : Config where
  mode := .decode
  hlcpp := false
  processHandle _ _ := .unchanged
  isValidUtf8 _ := true

theorem message_tiled_named :
    named.WellFormed ∧ named.Padded ∧
      ∃ dec, fidlDecodeImpl anyHandle named namedMessage = .go dec ∧
        Tiled namedMessage (⟨0, 16⟩ :: extents dec.visits) := by
  have wellFormed : named.WellFormed := ⟨trivial, by omega, by decide, trivial⟩
  have padded : named.Padded := ⟨nofun, trivial, trivial⟩
  have holds := (message_tiled wellFormed padded anyHandle namedMessage 0).2 _ (.inl rfl)
  obtain ⟨dec, gone⟩ : ∃ dec, fidlDecodeImpl anyHandle named namedMessage = .go dec :=
    ⟨_, rfl⟩
  obtain ⟨_, _, sized, tiled⟩ := holds.2 dec gone
  obtain ⟨rfl, _, _⟩ := primaryObjectSize_eq sized
  exact ⟨wellFormed, padded, dec, gone, tiled⟩

end

end FuchsiaSdk.CodedTiling
