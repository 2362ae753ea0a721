import FuchsiaSdk.CodedDecodeHandles
import FuchsiaSdk.WireAccepted

/-! The two FIDL decoders against each other: the wire coding traits of a type
(`WireDecoder`) and the walker over a coding table that describes it
(`CodedDecoder`). They go through a message in step until one of them reports an
error, and then the other one reports an error too. Only their depth limits and
what they do with unknown envelopes differ. -/
namespace FuchsiaSdk.DecodersAgree
open Memory WireFormat CodingTable CodedDecodeHandles
open List
open CodedDecoder hiding Decoder
open WireRoundTrip (letter letter_wellFormed)
open WireDecoder hiding Decoder Config
open WireDecoder.Decoder (setError alloc decodeHandle deeper allocThen checkPadding checkConsumed)
open CodedDecoder.Decoder (visitHandle visitPointer visitInternalPadding leaveInlinedEnvelope leaveEnvelope)

abbrev Wire : Type := WireDecoder.Decoder

abbrev Coded : Type := CodedDecoder.Decoder

/-! ## Coding tables that describe a type -/

/-- A coded type of a size that has nothing to be checked. -/
def Unchecked (size : Nat) : CodedType → Prop
  | .primitive subtype => subtype ≠ .bool ∧ subtype.size = size
  | .enum underlying strict _ => strict = false ∧ underlying.size = size
  | .bits underlying strict _ => strict = false ∧ underlying.size = size
  | _ => False

def Elements.fields : Elements → List (Nat × CodedType)
  | .nil => []
  | .field off ty rest => (off, ty) :: Elements.fields rest
  | .padding _ rest => Elements.fields rest

def Elements.paddings : Elements → List Padding
  | .nil => []
  | .field _ _ rest => Elements.paddings rest
  | .padding padding rest => padding :: Elements.paddings rest

/-- Counts in coding tables are `uint32_t`. -/
def countLimit (limit : Nat) : Nat := min limit (2 ^ 32 - 1)

mutual

/-- The coding table of a type. An empty struct, whose table says so and has no elements, is
left out. -/
def Ty.DescribedBy : Ty → CodedType → Prop
  | .primitive size, table => Unchecked size table
  | .bool, table => table = .primitive .bool
  | .array element count, table =>
    ∃ inner, table = .array element.inlineSize (element.inlineSize * count) inner ∧
      Ty.DescribedBy element inner
  | .vector element limit optional, table =>
    ∃ inner, table = .vector optional (countLimit limit) element.inlineSize inner ∧
      Ty.DescribedBy element inner
  | .string limit optional, table => table = .string optional (countLimit limit)
  | .handle attrs optional, table => table = .handle optional attrs
  | .box inner, table =>
    ∃ elements, table = .structPointer false inner.inlineSize elements ∧
      Ty.DescribedBy inner (.struct false inner.inlineSize elements)
  | .struct members paddings, table =>
    ∃ elements, table = .struct false members.size elements ∧
      Members.DescribedBy members 0 (Elements.fields elements) ∧
      ∀ padding, padding ∈ Elements.paddings elements ↔ padding ∈ paddings
  | .table fields, table =>
    ∃ isResource known, table = .table isResource known ∧ Fields.DescribedBy fields 1 known

/-- A member without anything to be checked may be left out of the table. -/
def Members.DescribedBy : Members → (off : Nat) → List (Nat × CodedType) → Prop
  | .nil, _, fields => fields = []
  | .cons ty gap rest, off, fields =>
    (∃ table more, fields = (off, table) :: more ∧ Ty.DescribedBy ty table ∧
      Members.DescribedBy rest (off + (ty.inlineSize + gap)) more) ∨
    (ty.isMemcpyCompatible = true ∧ Members.DescribedBy rest (off + (ty.inlineSize + gap)) fields)

def Fields.DescribedBy : Fields → (ordinal : Nat) → TableFields → Prop
  | .nil, _, known => known = .nil
  | .reserved rest, ordinal, known => Fields.DescribedBy rest (ordinal + 1) known
  | .field ty rest, ordinal, known =>
    ∃ table more, known = .field ordinal table more ∧ Ty.DescribedBy ty table ∧
      Fields.DescribedBy rest (ordinal + 1) more

end

lemma typeSize_of_describedBy : {ty : Ty} → {table : CodedType} → Ty.DescribedBy ty table →
    table.typeSize = ty.inlineSize
  | .primitive _, .primitive _, described => described.2
  | .primitive _, .enum _ _ _, described => described.2
  | .primitive _, .bits _ _ _, described => described.2
  | .bool, _, rfl => rfl
  | .array _ _, _, ⟨_, rfl, _⟩ => rfl
  | .vector _ _ _, _, ⟨_, rfl, _⟩ => rfl
  | .string _ _, _, rfl => rfl
  | .handle _ _, _, rfl => rfl
  | .box _, _, ⟨_, rfl, _⟩ => rfl
  | .struct _ _, _, ⟨_, rfl, _⟩ => rfl
  | .table _, _, ⟨_, _, rfl, _⟩ => rfl

/-- The fields of a struct are laid out like its members. -/
inductive LaidOut : List (Nat × CodedType) → (start stop : Nat) → Prop where
  | nil (start stop : Nat) : LaidOut [] start stop
  | cons {ty : CodedType} {off start stop : Nat} {more : List (Nat × CodedType)} :
    ty.WellFormed → start ≤ off → off + ty.typeSize ≤ stop →
    LaidOut more (off + ty.typeSize) stop → LaidOut ((off, ty) :: more) start stop

lemma LaidOut.later
    (laid : LaidOut fields start stop) (earlier : start' ≤ start) : LaidOut fields start' stop := by
  cases laid with
  | nil => exact .nil ..
  | cons formed _ inside more => exact .cons formed (by omega) inside more

lemma wellFormed_of_laidOut : (elements : Elements) → {start stop : Nat} →
    LaidOut (Elements.fields elements) start stop → elements.WellFormed start stop
  | .nil, _, _, _ => trivial
  | .field _ _ rest, _, _, .cons formed above inside more =>
    ⟨formed, above, inside, wellFormed_of_laidOut rest more⟩
  | .padding _ rest, _, _, laid => wellFormed_of_laidOut rest laid

mutual

lemma wellFormed_of_describedBy : (ty : Ty) → {table : CodedType} → Ty.DescribedBy ty table → table.WellFormed
  | .primitive _, .primitive _, _ => trivial
  | .primitive _, .enum _ _ _, _ => trivial
  | .primitive _, .bits _ _ _, _ => trivial
  | .bool, _, rfl => trivial
  | .array element _, _, ⟨_, rfl, described⟩ =>
    ⟨wellFormed_of_describedBy element described, (typeSize_of_describedBy described).symm,
      Nat.dvd_mul_right ..⟩
  | .vector element _ _, _, ⟨_, rfl, described⟩ =>
    ⟨wellFormed_of_describedBy element described, (typeSize_of_describedBy described).symm⟩
  | .string _ _, _, rfl => trivial
  | .handle _ _, _, rfl => trivial
  | .box inner, _, ⟨_, rfl, described⟩ => by
    have inside := wellFormed_of_describedBy inner described
    exact inside
  | .struct members _, _, ⟨elements, rfl, described, _⟩ =>
    wellFormed_of_laidOut elements
      (laidOut_of_describedBy members 0 described _ (Nat.le_of_eq (Nat.zero_add _)))
  | .table fields, _, ⟨_, _, rfl, described⟩ => fields_wellFormed fields 1 described

lemma laidOut_of_describedBy : (members : Members) → (off : Nat) →
    {fields : List (Nat × CodedType)} → Members.DescribedBy members off fields →
    (stop : Nat) → off + members.size ≤ stop → LaidOut fields off stop
  | .nil, _, _, rfl, _, _ => .nil ..
  | .cons ty gap rest, off, _, .inl ⟨_, _, rfl, described, others⟩, stop, inside => by
    rw [Members.size] at inside
    have size := typeSize_of_describedBy described
    refine .cons (wellFormed_of_describedBy ty described) le_rfl (by omega) ?_
    exact (laidOut_of_describedBy rest _ others stop (by omega)).later (by omega)
  | .cons ty gap rest, off, _, .inr ⟨_, others⟩, stop, inside => by
    rw [Members.size] at inside
    exact (laidOut_of_describedBy rest _ others stop (by omega)).later (by omega)

lemma fields_wellFormed : (fields : Fields) → (ordinal : Nat) → {known : TableFields} →
    Fields.DescribedBy fields ordinal known → known.WellFormed
  | .nil, _, _, rfl => trivial
  | .reserved rest, _, _, described => fields_wellFormed rest _ described
  | .field ty rest, _, _, ⟨_, _, rfl, described, others⟩ =>
    ⟨wellFormed_of_describedBy ty described, fields_wellFormed rest _ others⟩

end

/-! ## States in step -/

/-- The two decoders are at the same place of the same message. -/
structure Match (wire : Wire) (coded : Coded) : Prop where
  base : wire.base = coded.base
  size : wire.size = coded.size
  memory : wire.memory = coded.memory
  next : wire.next = coded.next
  index : wire.index = coded.index
  count : wire.handles.length = coded.handles.length
  ahead : wire.handles.drop wire.index = coded.handles.drop coded.index
  error : wire.error = none
  aligned : 8 ∣ coded.next
  small : coded.size < 2 ^ 32 - 8
  few : coded.handles.length ≤ 64

structure Same (cfg : Config) (base : Nat) (wire : Wire) (coded : Coded) : Prop where
  step : Match wire coded
  ready : Ready cfg base coded

/-- Where the decoders may differ: one of them has found the nesting too deep, or
an unknown envelope was met. -/
def Excused (wire : Wire) (outcome : Outcome) : Prop :=
  wire.error = some .recursionDepthExceeded ∨
    (∃ coded, outcome = .exit .recursionDepthExceeded coded) ∨
    ∃ envelope, Visit.unknown envelope ∈ outcome.decoder.visits

/-- Both go on in step, or both have reported an error. -/
inductive Agree (wire : Wire) : Outcome → Prop where
  | go {coded : Coded} : Match wire coded → Agree wire (.go coded)
  | exit {error : DecodeError} {coded : Coded} : wire.error.isSome = true →
    Agree wire (.exit error coded)
  | excused {outcome : Outcome} : Excused wire outcome → Agree wire outcome

/-- The first error stays. -/
def Fixed (before after : Wire) : Prop :=
  ∀ error, before.error = some error → after.error = some error

section

variable {cfg : Config} {coding : Coding} {base : Nat} {wire middle after : Wire} {coded : Coded}
  {outcome : Outcome}
variable {body : Nat → Coded → Outcome} {size ptr : Nat}

lemma Fixed.sticky (fixed : Fixed wire after) : WireDecoder.Sticky wire after := by
  intro failed
  obtain ⟨error, found⟩ := Option.isSome_iff_exists.mp failed
  rw [fixed error found]
  rfl

lemma fixed_setError (wire : Wire) (error : CodingError) : Fixed wire (wire.setError error) := by
  intro _ found
  simp [setError, found]

lemma fixed_respected (cfg : WireDecoder.Config) : WireDecoder.Respected cfg Fixed where
  refl _ _ := id
  trans := fun first second error found => second error (first error found)
  point _ _ _ _ := id
  alloc wire size := by
    unfold alloc
    simp only
    repeat' split
    all_goals first
      | exact fun _ => id
      | exact fixed_setError wire _
  setError := fixed_setError
  close wire count := by
    unfold WireDecoder.Decoder.closeNextNHandles
    split
    · exact fixed_setError wire _
    · exact fun _ => id
  handle wire pos attrs optional := by
    unfold decodeHandle
    repeat' split
    all_goals first
      | exact fun _ => id
      | exact fixed_setError wire _

/-- The visits of a walk are kept. -/
lemma lockstep_grows (cfg : Config) : Lockstep cfg cfg
    fun dec outcome _ => dec.visits <+: outcome.decoder.visits where
  mode := rfl
  utf8 := rfl
  go _ := prefix_rfl
  exit _ _ := prefix_rfl
  andThen {_ left _ _ _} first more := by
    cases left with
    | go middle => exact first.trans (more middle)
    | exit | abort => exact first
  place _ := by cases cfg.mode <;> exact prefix_append ..
  handle dec pos attrs := by
    unfold visitHandle
    simp only
    repeat' split
    all_goals first
      | exact prefix_rfl
      | exact prefix_append ..
  unknown _ _ _ _ _ := visitUnknownEnvelope_visits ..

lemma Excused.andThen {body : Coded → Outcome} (excused : Excused middle outcome)
    (fixed : Fixed middle after) (grows : ∀ coded, coded.visits <+: (body coded).decoder.visits) :
    Excused after (outcome.andThen body) := by
  rcases excused with deep | ⟨stopped, rfl⟩ | ⟨count, visited⟩
  · exact .inl (fixed _ deep)
  · exact .inr (.inl ⟨stopped, rfl⟩)
  refine .inr (.inr ⟨count, ?_⟩)
  cases outcome with
  | go coded => exact (grows coded).subset visited
  | exit | abort => exact visited

/-- One object after the other. -/
lemma Agree.andThen {body : Coded → Outcome} (first : Agree middle outcome)
    (fixed : Fixed middle after) (grows : ∀ coded, coded.visits <+: (body coded).decoder.visits)
    (second : ∀ coded, outcome = .go coded → Match middle coded → Agree after (body coded)) :
    Agree after (outcome.andThen body) := by
  cases first with
  | go step => exact second _ rfl step
  | exit failed => exact .exit (fixed.sticky failed)
  | excused excused => exact .excused (excused.andThen fixed grows)

lemma isSome_setError (wire : Wire) (error : CodingError) : (wire.setError error).error.isSome = true := by
  unfold setError
  cases wire.error <;> rfl

/-- Both decoders fail. -/
lemma agree_setError (error : CodingError) (error' : DecodeError) :
    Agree (wire.setError error) (.exit error' coded) :=
  .exit (isSome_setError wire error)

/-! ## Depths -/

lemma agree_deeper (clean : wire.error = none) {body : Nat → Wire → Wire}
    (inside : ∀ depth, Agree (body depth wire) outcome) :
    Agree (wire.deeper coding depth diff body) outcome := by
  unfold deeper
  split
  · refine .excused (.inl ?_)
    simp [setError, clean]
  · exact inside _

lemma agree_guardDepth (inside : ∀ depth, Agree wire (body depth coded)) :
    Agree wire (guardDepth depth body coded) := by
  unfold guardDepth
  simp only
  split
  · exact .excused (.inr (.inl ⟨coded, rfl⟩))
  · exact inside _

/-! ## Objects out of line -/

/-- The message has room for an object out of line, and its padding is zero. -/
def Room (coded : Coded) (size : Nat) : Prop :=
  align (coded.next + size) ≤ coded.size ∧
    (load coded.memory (coded.next + size)
      (align (coded.next + size) - (coded.next + size))).any (· ≠ 0) = false

lemma alloc_room (step : Match wire coded) (room : Room coded size) :
    wire.alloc size = (some coded.next, wire.advance (align (coded.next + size))) := by
  obtain ⟨inside, padded⟩ := room
  unfold alloc
  split
  next empty =>
    rw [empty, Nat.add_zero, align_of_dvd step.aligned, ← step.next]
    rfl
  · simp only [step.next, step.size, step.memory]
    rw [if_neg (Nat.not_lt.mpr inside), padded, if_neg Bool.false_ne_true]

private lemma alloc_full (step : Match wire coded) (inside : coded.next ≤ coded.size)
    (full : ¬ Room coded size) :
    (wire.alloc size).1 = none ∧ (wire.alloc size).2.error.isSome = true := by
  unfold alloc
  split
  next empty =>
    refine absurd ?_ full
    rw [empty]
    unfold Room
    rw [Nat.add_zero, align_of_dvd step.aligned, Nat.sub_self]
    exact ⟨inside, rfl⟩
  · simp only [step.next, step.size, step.memory]
    split
    · exact ⟨rfl, isSome_setError ..⟩
    split
    · exact ⟨rfl, isSome_setError ..⟩
    next fits padded => exact absurd ⟨Nat.not_lt.mp fits, Bool.eq_false_iff.mpr padded⟩ full

lemma allocThen_full (step : Match wire coded) (inside : coded.next ≤ coded.size)
    (full : ¬ Room coded size) (body : Nat → Wire → Wire) :
    (wire.allocThen size body).error.isSome = true := by
  obtain ⟨none, failed⟩ := alloc_full step inside full
  unfold allocThen
  split <;> rename_i allocated
  · rwa [allocated] at failed
  · rw [allocated] at none
    cases none

/-- An object that is larger than any buffer. -/
lemma not_room (step : Match wire coded) (huge : size ≥ 2 ^ 32) : ¬ Room coded size := by
  intro room
  have bound := le_align (coded.next + size)
  have inside := room.1
  have small := step.small
  omega

private lemma addOutOfLine_eq (small : align (off + size) < 2 ^ 32 - 8) :
    addOutOfLine off size = some (align (off + size)) := by
  have bound := le_align (off + size)
  unfold addOutOfLine
  rw [if_neg (by omega), if_neg (by omega)]

lemma Room.of_fits (step : Match wire coded) (fits : Fits coded cfg pointee ptr size later) :
    Room coded size := by
  have inside := fits.inside
  have padded := fits.padded
  rw [addOutOfLine_eq_align fits.added] at inside padded
  refine ⟨inside, ?_⟩
  rw [← Nat.sub_sub]
  by_cases even : size % 8 = 0
  · rw [align_of_dvd (Nat.dvd_add step.aligned (Nat.dvd_of_mod_eq_zero even)), Nat.sub_sub,
      Nat.sub_self]
    rfl
  · exact padded even

lemma visitPointer_room (step : Match wire coded) (room : Room coded size)
    (marked : pointee = .envelope ∨ word coded.memory ptr 8 = allocPresent)
    (valid : pointee = .string → cfg.isValidUtf8 (load coded.memory coded.next size) = true) :
    coded.visitPointer cfg pointee ptr size body =
      body coded.next (coded.place cfg.mode ptr size (align (coded.next + size))) := by
  obtain ⟨inside, padded⟩ := room
  have small := step.small
  rcases visitPointer_cases with ⟨next, fits, goes⟩ | ⟨none, -⟩
  · rw [goes, addOutOfLine_eq_align fits.added]
  refine absurd ⟨marked, addOutOfLine_eq (by omega), inside, fun _ => ?_, valid⟩ (none _)
  rw [Nat.sub_sub]
  exact padded

lemma visitPointer_error (unfit : ∀ next, ¬ Fits coded cfg pointee ptr size next) :
    ∃ error, coded.visitPointer cfg pointee ptr size body = .exit error coded := by
  rcases visitPointer_cases with
    ⟨next, fits, -⟩ | ⟨-, error, fails⟩
  · exact absurd fits (unfit next)
  · exact ⟨error, fails body⟩

lemma visitPointer_full (step : Match wire coded) (full : ¬ Room coded size) :
    ∃ error, coded.visitPointer cfg pointee ptr size body = .exit error coded :=
  visitPointer_error fun _ fits => full (.of_fits step fits)

/-- The states after the pointer to an object out of line was written. -/
lemma Same.place (same : Same cfg base wire coded) (decoding : cfg.mode = .decode)
    (room : Room coded size) (ptr : Nat) :
    Same cfg base ((wire.advance (align (coded.next + size))).point ptr coded.next)
      (coded.place cfg.mode ptr size (align (coded.next + size))) := by
  have step := same.step
  rw [decoding]
  refine ⟨⟨step.base, step.size, ?_, rfl, step.index, step.count, step.ahead, step.error,
    dvd_align _, step.small, step.few⟩, same.ready.place room.1 ptr size⟩
  change store wire.memory ptr (littleEndian 8 (wire.base + coded.next)) = _
  rw [step.memory, step.base]
  rfl

/-- A pointer with the right marker. -/
lemma agree_pointer (same : Same cfg base wire coded) (decoding : cfg.mode = .decode)
    (pointee : PointeeType) (body : Nat → Wire → Wire) (body' : Nat → Coded → Outcome)
    (marked : pointee = .envelope ∨ word coded.memory ptr 8 = allocPresent) (plain : pointee ≠ .string)
    (inside : ∀ wire' coded', Same cfg base wire' coded' → coded.next + size ≤ coded'.next →
      coded' = coded.place cfg.mode ptr size (align (coded.next + size)) →
      Agree (body coded.next wire') (body' coded.next coded')) :
    Agree (wire.allocThen size fun object wire => body object (wire.point ptr object))
      (coded.visitPointer cfg pointee ptr size body') := by
  by_cases room : Room coded size
  · unfold allocThen
    rw [alloc_room same.step room,
      visitPointer_room same.step room marked fun isString => absurd isString plain]
    exact inside _ _ (same.place decoding room ptr) (le_align _) rfl
  · obtain ⟨_, stopped⟩ := visitPointer_full same.step room
    rw [stopped]
    exact .exit (allocThen_full same.step same.ready.inside room _)

end

/-! ## Coding traits and walks -/

/-- The same checks of handles and strings, and no handle is replaced by none. -/
structure Alike (coding : Coding) (wireConfig : WireDecoder.Config) (cfg : Config) : Prop where
  decoding : cfg.mode = .decode
  utf8 : coding.isValidUtf8 = cfg.isValidUtf8
  checks : wireConfig.processHandle = cfg.processHandle
  fresh : ∀ attrs index successor,
    cfg.processHandle attrs index = .replaced successor → successor ≠ 0

/-- Decoding and walking an object, from states in step. -/
structure Simulates (cfg : Config) (base size : Nat) (decode : Nat → Nat → Wire → Wire)
    (walk : Nat → Nat → Coded → Outcome) (view : Memory → Nat → List Handle) : Prop where
  fixed : ∀ depth pos wire, Fixed wire (decode depth pos wire)
  grows : ∀ depth pos coded, coded.visits <+: (walk depth pos coded).decoder.visits
  walks : ∀ depth, Walks cfg base size (walk depth) view
  agree : ∀ depth depth' pos wire coded, Same cfg base wire coded →
    pos + size ≤ coded.next → Agree (decode depth pos wire) (walk depth' pos coded)

section

variable {cfg : Config} {coding : Coding} {base size stride : Nat} {wire after : Wire}
  {coded : Coded} {outcome : Outcome} {decode : Nat → Nat → Wire → Wire}
  {walk : Nat → Nat → Coded → Outcome} {view : Memory → Nat → List Handle}
  {optional needWalk : Bool} {pos depth depth' : Nat}
variable {limit : Nat}

/-- The next state of the walk is ready again, and lies after what was walked. -/
lemma Simulates.ready (simulates : Simulates cfg base size decode walk view)
    (same : Same cfg base wire coded) (below : pos + size ≤ coded.next)
    (gone : walk depth pos coded = .go coded') : Ready cfg base coded' ∧ coded.next ≤ coded'.next ∧
      ∀ addr, addr < pos ∨ pos + size ≤ addr → addr < coded.next →
        coded'.memory addr = coded.memory addr := by
  obtain ⟨_, took⟩ := simulates.walks depth pos coded coded' same.ready below gone
  exact ⟨took.ready, took.next, fun addr outside before =>
    took.frame addr outside (.inl before)⟩

/-- The elements of an array or a vector. -/
private lemma agree_each (simulates : Simulates cfg base stride decode walk view)
    (count pos : Nat) (same : Same cfg base wire coded) (below : pos + count * stride ≤ coded.next) :
    Agree (decodeEach (decode depth) stride count pos wire)
      (walkEach (walk depth') stride count pos coded) := by
  induction count generalizing pos wire coded with
  | zero => exact .go same.step
  | succ count ih =>
    have split : (count + 1) * stride = stride + count * stride := by ring
    refine (simulates.agree depth depth' pos wire coded same (by omega)).andThen
      ((fixed_respected ⟨cfg.processHandle⟩).each (simulates.fixed depth) stride count _ _)
      (@Lockstep.each _ _ _ (lockstep_grows cfg) _ (walk depth') (simulates.grows depth') stride
        count _)
      fun middle gone step => ?_
    obtain ⟨ready, next, _⟩ := simulates.ready same (by omega) gone
    exact ih _ ⟨step, ready⟩ (by omega)

private lemma walkEach_idle {walk : Nat → Coded → Outcome}
    (idle : ∀ pos coded, walk pos coded = .go coded) (count pos : Nat)
    (coded : Coded) : walkEach walk stride count pos coded = .go coded := by
  induction count generalizing pos with
  | zero => rfl
  | succ count ih =>
    rw [walkEach, idle]
    exact ih _

/-- Whether elements are looked at makes no difference. -/
lemma agree_iterable (simulates : Simulates cfg base stride decode walk view)
    (positive : 0 < stride) {compatible : Bool}
    (idle : compatible = true → ∀ depth pos wire, decode depth pos wire = wire)
    (quiet : needWalk = false → ∀ depth pos coded, walk depth pos coded = .go coded)
    (count pos : Nat) (same : Same cfg base wire coded) (below : pos + count * stride ≤ coded.next) :
    Agree (if compatible then wire else decodeEach (decode depth) stride count pos wire)
      (walkIterable needWalk (walk depth') stride (count * stride) pos coded) := by
  have decoded : (if compatible then wire
      else decodeEach (decode depth) stride count pos wire) =
      decodeEach (decode depth) stride count pos wire := by
    split
    · rw [WireRoundTrip.decodeEach_skip (idle ‹_› depth)]
    · rfl
  have rounds : rounds stride (count * stride) = count := by
    have whole := rounds_mul (Nat.dvd_mul_left stride count)
    exact Nat.eq_of_mul_eq_mul_right positive whole
  have walked : walkIterable needWalk (walk depth') stride (count * stride) pos
      coded = walkEach (walk depth') stride count pos coded := by
    unfold walkIterable
    rw [rounds]
    split
    · rfl
    next plain => rw [walkEach_idle (quiet (Bool.eq_false_iff.mpr plain) depth')]
  rw [decoded, walked]
  exact agree_each simulates count pos same below

/-! ## Vectors and strings -/

/-- The header of a vector that is absent and may be. -/
def Null (coded : Coded) (pos : Nat) (optional : Bool) : Prop :=
  word coded.memory (pos + 8) 8 = 0 ∧ word coded.memory pos 8 = 0 ∧ optional = true

/-- The header of a vector that is present. -/
def Present (coded : Coded) (pos limit : Nat) : Prop :=
  word coded.memory pos 8 ≤ countLimit limit ∧ word coded.memory (pos + 8) 8 = allocPresent

/-- `DecodePrework` of a vector that is absent and may be. -/
lemma decodePrework_null (step : Match wire coded) (absent : Null coded pos optional) :
    decodePrework pos optional limit wire = (false, wire) := by
  obtain ⟨null, empty, rfl⟩ := absent
  unfold decodePrework
  simp only [step.memory, null, empty]
  rw [if_neg (Nat.not_lt_zero _), if_neg (Nat.not_lt_zero _), if_neg (by decide),
    if_pos (show 0 = allocAbsent from rfl)]
  simp

lemma decodePrework_present (step : Match wire coded) (bounded : word coded.memory pos 8 ≤ countLimit limit)
    (present : word coded.memory (pos + 8) 8 = allocPresent) :
    decodePrework pos optional limit wire = (true, wire) := by
  unfold countLimit at bounded
  unfold decodePrework
  simp only [step.memory]
  rw [if_neg (by omega), if_neg (by omega), if_pos present]

/-- `DecodePrework` of anything else. -/
private lemma decodePrework_error (step : Match wire coded)
    (absent : ¬ Null coded pos optional) (present : ¬ Present coded pos limit) :
    ∃ error, decodePrework pos optional limit wire = (false, wire.setError error) := by
  unfold Present countLimit at present
  unfold decodePrework
  simp only [step.memory]
  split
  · exact ⟨_, rfl⟩
  split
  · exact ⟨_, rfl⟩
  split
  next marked => exact absurd ⟨by omega, marked⟩ present
  split
  next null =>
    split
    · exact ⟨_, rfl⟩
    rename_i mandatory
    split
    · exact ⟨_, rfl⟩
    rename_i empty
    refine absurd ⟨null, not_not.mp empty, ?_⟩ absent
    simpa using mandatory
  · exact ⟨_, rfl⟩

/-- The decoders agree on the header if that of a vector which is neither absent nor present
is an error. -/
lemma agree_header {rest : Outcome} (step : Match wire coded)
    (failed : ¬ Null coded pos optional → ¬ Present coded pos limit → after.error.isSome = true)
    (idle : Null coded pos optional → after = wire)
    (filled : ¬ Null coded pos optional → Agree after rest) :
    Agree after (if word coded.memory (pos + 8) 8 = 0 then
        if word coded.memory pos 8 ≠ 0 then .exit sized coded
        else if !optional then guardDepth depth (fun _ dec => .exit missing dec) coded else .go coded
      else rest) := by
  split
  next null =>
    have unmarked : ¬ Present coded pos limit := by
      unfold Present
      rw [null]
      exact fun wrong => absurd wrong.2 (by decide)
    split
    next full => exact .exit (failed (fun wrong => full wrong.2.1) unmarked)
    rename_i empty
    cases optional with
    | false =>
      exact agree_guardDepth fun _ => .exit (failed (fun wrong => Bool.false_ne_true wrong.2.2) unmarked)
    | true =>
      rw [idle ⟨null, not_not.mp empty, rfl⟩]
      exact .go step
  next data => exact filled fun wrong => data wrong.1

/-- A vector whose header is wrong. -/
lemma agree_vector_error (step : Match wire coded)
    (absent : ¬ Null coded pos optional) (present : ¬ Present coded pos limit) :
    (decodeVector coding compatible decode stride limit optional pos depth wire).error.isSome = true := by
  obtain ⟨error, failed⟩ := decodePrework_error step absent present
  unfold decodeVector
  rw [failed]
  simp [setError, step.error]

lemma agree_vector (simulates : Simulates cfg base stride decode walk view)
    (decoding : cfg.mode = .decode) (positive : 0 < stride)
    (idle : compatible = true → ∀ depth pos wire, decode depth pos wire = wire)
    (quiet : needWalk = false → ∀ depth pos coded, walk depth pos coded = .go coded)
    (same : Same cfg base wire coded) :
    Agree (decodeVector coding compatible decode stride limit optional pos depth wire)
      (walkVector cfg optional (countLimit limit) stride needWalk walk depth' pos coded) := by
  have step := same.step
  unfold walkVector
  refine agree_header step (agree_vector_error step) (fun null => ?_) fun nonnull => ?_
  · unfold decodeVector
    rw [decodePrework_null step null]
  · split
    next beyond =>
      exact .exit (agree_vector_error step nonnull fun wrong => absurd wrong.1 (Nat.not_le.mpr beyond))
    rename_i bounded
    rw [Nat.not_lt] at bounded
    by_cases marked : word coded.memory (pos + 8) 8 = allocPresent
    · unfold decodeVector
      rw [decodePrework_present step bounded marked]
      refine agree_deeper step.error fun depth => ?_
      unfold decodeElements
      simp only [step.memory]
      by_cases huge : word coded.memory pos 8 * stride ≥ 2 ^ 32
      · rw [if_pos huge]
        exact .exit (allocThen_full step same.ready.inside (not_room step huge) _)
      rw [if_neg huge]
      refine agree_guardDepth fun depth' => ?_
      have inside := agree_pointer same decoding .vector
        (fun object wire => if compatible then wire
          else decodeEach (decode depth) stride (word coded.memory pos 8) object wire)
        (walkIterable needWalk (walk depth') stride (word coded.memory pos 8 * stride))
        (.inr marked) nofun
        fun wire' coded' same' room _ => agree_iterable simulates positive idle quiet _ _ same'
          room
      exact inside
    · have failed : (decodeVector coding compatible decode stride limit optional
          pos depth wire).error.isSome = true :=
        agree_vector_error step nonnull fun wrong => marked wrong.2
      split
      · exact .exit failed
      refine agree_guardDepth fun depth => ?_
      unfold visitPointer
      rw [if_pos ⟨nofun, marked⟩]
      exact .exit failed

lemma decodeString_error (failed : (decodeVector coding true (fun _ _ wire => wire) 1 limit optional pos
      depth wire).error.isSome = true) :
    (decodeString coding limit optional pos depth wire).error.isSome = true := by
  unfold decodeString
  rw [if_pos (Or.inr failed)]
  exact failed

/-- The text of a string is checked before its pointer is written, or after it. -/
private lemma agree_text (same : Same cfg base wire coded) (decoding : cfg.mode = .decode)
    (utf8 : coding.isValidUtf8 = cfg.isValidUtf8) (below : pos + 16 ≤ coded.next)
    (marked : word coded.memory (pos + 8) 8 = allocPresent)
    (bounded : word coded.memory pos 8 ≤ countLimit limit) :
    Agree (decodeString coding limit optional pos depth wire)
      (coded.visitPointer cfg .string (pos + 8) (word coded.memory pos 8) fun _ coded => .go coded) := by
  have step := same.step
  have failed : ¬ Room coded (word coded.memory pos 8) →
      (decodeElements true (fun _ wire => wire) 1 pos wire).error.isSome = true := by
    intro full
    unfold decodeElements
    simp only [step.memory, Nat.mul_one]
    exact allocThen_full step same.ready.inside full _
  have vector : decodeVector coding true (fun _ _ wire => wire) 1 limit optional pos
      depth wire = wire.deeper coding depth 1 fun _ wire =>
        decodeElements true (fun _ wire => wire) 1 pos wire := by
    unfold decodeVector
    rw [decodePrework_present step bounded marked]
  unfold deeper at vector
  cases added : coding.add depth 1 with
  | none =>
    rw [added] at vector
    refine .excused (.inl ?_)
    unfold decodeString
    rw [vector]
    simp [setError, step.error]
  | some _ =>
    rw [added] at vector
    simp only at vector
    by_cases room : Room coded (word coded.memory pos 8)
    · have placed := (same.place decoding room (pos + 8)).step
      have elements : decodeElements true (fun _ wire => wire) 1 pos wire =
          (wire.advance (align (coded.next + word coded.memory pos 8))).point (pos + 8)
            coded.next := by
        unfold decodeElements allocThen
        simp only [step.memory, Nat.mul_one]
        rw [alloc_room step room]
        rfl
      rw [elements] at vector
      generalize wire' : (wire.advance (align (coded.next + word coded.memory pos 8))).point
        (pos + 8) coded.next = after at *
      have memory : after.memory = store coded.memory (pos + 8)
          (littleEndian 8 (coded.base + coded.next)) := by
        rw [placed.memory, decoding]
        rfl
      have fits := room.1
      have bound := le_align (coded.next + word coded.memory pos 8)
      have addr := same.ready.address
      have data : word after.memory (pos + 8) 8 = base + coded.next := by
        rw [memory, same.ready.start]
        refine word_of_load ?_ (load_store_of_length (length_littleEndian ..))
        omega
      have count : word after.memory pos 8 = word coded.memory pos 8 := by
        rw [memory]
        exact word_congr (store_agreeOn (Or.inl le_rfl))
      have text : load after.memory coded.next (word coded.memory pos 8) =
          load coded.memory coded.next (word coded.memory pos 8) := by
        rw [memory]
        refine load_congr (store_agreeOn (Or.inr ?_))
        rw [length_littleEndian]
        omega
      have start : after.base = base := by
        rw [placed.base, decoding]
        exact same.ready.start
      have decoded : decodeString coding limit optional pos depth wire =
          if cfg.isValidUtf8 (load coded.memory coded.next (word coded.memory pos 8)) then after
          else after.setError .stringNotValidUtf8 := by
        unfold decodeString
        simp only [vector]
        have present : ¬ (word after.memory (pos + 8) 8 = 0 ∨ after.error.isSome = true) := by
          rw [placed.error]
          rintro (_ | failed)
          · omega
          · cases failed
        rw [if_neg present, data, start, Nat.add_sub_cancel_left, count, text, utf8]
      rw [decoded]
      cases valid : cfg.isValidUtf8 (load coded.memory coded.next (word coded.memory pos 8)) with
      | true =>
        rw [visitPointer_room step room (.inr marked) fun _ => valid]
        exact .go placed
      | false =>
        obtain ⟨error, stopped⟩ : ∃ error, coded.visitPointer cfg .string (pos + 8)
            (word coded.memory pos 8) (fun _ coded => .go coded) = .exit error coded :=
          visitPointer_error fun _ fits => Bool.false_ne_true (valid.symm.trans (fits.valid rfl))
        rw [stopped]
        exact agree_setError ..
    · have refused : ∃ error, coded.visitPointer cfg .string (pos + 8)
          (word coded.memory pos 8) (fun _ coded => .go coded) = .exit error coded :=
        visitPointer_full step room
      obtain ⟨error, stopped⟩ := refused
      rw [stopped]
      exact .exit (decodeString_error (vector ▸ failed room))

lemma agree_string (same : Same cfg base wire coded) (decoding : cfg.mode = .decode)
    (utf8 : coding.isValidUtf8 = cfg.isValidUtf8) (below : pos + 16 ≤ coded.next) :
    Agree (decodeString coding limit optional pos depth wire)
      (walkString cfg optional (countLimit limit) depth' pos coded) := by
  have step := same.step
  have failed : ¬ Null coded pos optional → ¬ Present coded pos limit →
      (decodeString coding limit optional pos depth wire).error.isSome = true :=
    fun absent present => decodeString_error (agree_vector_error step absent present)
  unfold walkString
  refine agree_header step failed (fun null => ?_) fun nonnull => ?_
  · unfold decodeString decodeVector
    rw [decodePrework_null step null]
    simp only [step.memory, null.1, true_or, if_true]
  · by_cases bounded : word coded.memory pos 8 ≤ countLimit limit
    · have small : word coded.memory pos 8 ≤ 2 ^ 32 - 1 :=
        Nat.le_trans bounded (Nat.min_le_right ..)
      rw [if_neg (Nat.not_lt.mpr small), if_neg (Nat.not_lt.mpr bounded)]
      by_cases marked : word coded.memory (pos + 8) 8 = allocPresent
      · exact agree_guardDepth fun _ => agree_text same decoding utf8 below marked bounded
      refine agree_guardDepth fun _ => ?_
      unfold visitPointer
      rw [if_pos ⟨nofun, marked⟩]
      exact .exit (failed nonnull fun wrong => marked wrong.2)
    · have wrong := failed nonnull fun wrong => bounded wrong.1
      split
      · exact .exit wrong
      split
      · exact .exit wrong
      next within => exact absurd (Nat.not_lt.mp within) bounded

private lemma agree_box (simulates : Simulates cfg base size decode walk view)
    (decoding : cfg.mode = .decode) (same : Same cfg base wire coded) :
    Agree (decodeBox coding decode size pos depth wire)
      (walkStructPointer cfg size walk depth' pos coded) := by
  have step := same.step
  unfold decodeBox walkStructPointer
  rw [step.memory]
  by_cases null : word coded.memory pos 8 = 0
  · rw [null]
    exact .go step
  split <;> rename_i marked
  · refine agree_deeper step.error fun depth => agree_guardDepth fun depth' => ?_
    have object := agree_pointer same decoding .other (decode depth) (walk depth') (.inr marked)
      nofun fun wire' coded' same' room _ => simulates.agree depth depth' _ _ _ same' room
    exact object
  · rw [if_neg (show ¬ word coded.memory pos 8 = allocAbsent from null)]
    refine agree_guardDepth fun _ => ?_
    unfold visitPointer
    rw [if_pos ⟨nofun, marked⟩]
    exact agree_setError ..

private lemma agree_bool (step : Match wire coded) :
    Agree (if wire.memory pos = 0 ∨ wire.memory pos = 1 then wire
        else wire.setError .invalidBoolean) (walkPrimitive .bool pos coded) := by
  unfold walkPrimitive
  rw [step.memory]
  split <;> rename_i valid
  · rw [if_neg fun wrong => valid.elim wrong.2.1 wrong.2.2]
    exact .go step
  · rw [if_pos ⟨rfl, fun zero => valid (.inl zero), fun one => valid (.inr one)⟩]
    exact agree_setError ..

lemma agree_handle (decoding : cfg.mode = .decode) (checks : wireConfig.processHandle = cfg.processHandle)
    (same : Same cfg base wire coded) (attrs : HandleAttributes) :
    Agree (wire.decodeHandle wireConfig pos attrs optional) (walkHandle cfg optional attrs pos coded) := by
  have step := same.step
  have inv := same.ready.inv
  unfold decodeHandle walkHandle
    visitHandle
  rw [step.memory]
  by_cases null : word coded.memory pos 4 = 0
  · rw [if_neg (show ¬ word coded.memory pos 4 = handlePresent by rw [null]; decide),
      if_pos (show word coded.memory pos 4 = handleAbsent from null), if_pos null]
    cases optional with
    | false => exact agree_setError ..
    | true => exact .go step
  rw [if_neg null]
  by_cases marked : word coded.memory pos 4 = handlePresent
  · rw [if_pos marked, if_neg (not_not_intro marked)]
    have entry : wire.handles[wire.index]? = coded.handles[coded.index]? := by
      have heads := congrArg head? step.ahead
      rwa [head?_drop, head?_drop] at heads
    by_cases last : coded.index = coded.numHandles
    · have none : wire.handles[wire.index]? = none := by
        rw [entry]
        exact List.getElem?_eq_none (by rw [last, inv.count])
      rw [if_pos last, none]
      exact agree_setError ..
    rw [if_neg last, decoding]
    have inside : coded.index < coded.handles.length := by
      have within := inv.within
      have count := inv.count
      omega
    rw [entry, List.getElem?_eq_getElem inside]
    have head : coded.handles.getD coded.index 0 = coded.handles[coded.index] := by
      rw [getD_eq_getElem?_getD, List.getElem?_eq_getElem inside, Option.getD_some]
    simp only [head]
    by_cases missing : coded.handles[coded.index] = 0
    · rw [if_pos missing, if_pos missing]
      exact agree_setError ..
    rw [if_neg missing, if_neg missing, checks, step.index]
    -- Both store the same handle; only one of them also writes it to the array.
    have stored : ∀ handle visit, Match (wire.storeHandle pos handle)
        ((coded.visit visit).storeHandle pos handle) := by
      intro handle visit
      refine ⟨step.base, step.size, ?_, step.next, ?_, ?_, ?_, step.error, step.aligned, step.small,
        step.few⟩
      · change store wire.memory pos _ = store coded.memory pos _
        rw [step.memory]
      · exact congrArg (· + 1) step.index
      · exact length_set.trans step.count
      · have tails := congrArg (drop 1) step.ahead
        rw [drop_drop, drop_drop] at tails
        exact (drop_set_of_lt (Nat.lt_succ_self _)).trans tails
    cases check : cfg.processHandle attrs coded.index with
    | unchanged | replaced => exact .go (stored _ _)
    | refused => exact agree_setError ..
  · rw [if_neg marked, if_neg (show ¬ word coded.memory pos 4 = handleAbsent from null),
      if_pos marked]
    exact agree_setError ..

/-! ## Envelopes -/

/-- What a wire decoding without an error leaves alone. -/
def Keeps (base size : Nat) (decode : Nat → Nat → Wire → Wire) : Prop :=
  ∀ depth pos wire, WireAccepted.Ready base wire → pos + size ≤ wire.next →
    (decode depth pos wire).error = none → ∀ addr,
    addr < pos ∨ pos + size ≤ addr → addr < wire.next →
    (decode depth pos wire).memory addr = wire.memory addr

lemma Same.accepting (same : Same cfg base wire coded) : WireAccepted.Ready base wire := by
  have step := same.step
  have ready := same.ready
  refine ⟨step.error, step.base.trans ready.start, ready.positive, ?_, ?_, ?_, ?_⟩
  · rw [step.size]
    exact ready.address
  · rw [step.next, step.size]
    exact ready.inside
  · rw [step.next]
    exact step.aligned
  · rw [step.index, step.count]
    exact ready.inv.within

lemma numBytes_read (memory : Memory) (pos : Nat) :
    (EnvelopeCopy.read memory pos).numBytes = word memory pos 4 := rfl

lemma numHandles_read (memory : Memory) (pos : Nat) :
    (EnvelopeCopy.read memory pos).numHandles = word memory (pos + 4) 2 :=
  rfl

lemma flags_read (memory : Memory) (pos : Nat) :
    (EnvelopeCopy.read memory pos).flags = word memory (pos + 6) 2 := rfl

private lemma masked_padding : (zipWith (· &&& ·) (load memory pos
        (replicate size (0 : UInt8) ++ replicate (4 - size) 255).length)
      (replicate size 0 ++ replicate (4 - size) 255)).any (· ≠ 0) =
      (load memory (pos + size) (4 - size)).any (· ≠ 0) := by
  have split : (replicate size (0 : UInt8) ++ replicate (4 - size) 255).length =
      size + (4 - size) := by simp
  have zeros : ∀ bytes : List UInt8, bytes.length = size →
      zipWith (· &&& ·) bytes (replicate size 0) = replicate size (0 : UInt8) := by
    intro bytes length
    apply ext_getElem
    · simp [length]
    · intro index _ _
      simp
  have full : ∀ bytes : List UInt8, bytes.length = 4 - size →
      zipWith (· &&& ·) bytes (replicate (4 - size) 255) = bytes := by
    intro bytes length
    apply ext_getElem
    · simp [length]
    · intro index _ _
      simp [WireAccepted.and_full]
  rw [split, load_add, zipWith_append (by simp), zeros _ (by simp), full _ (by simp), any_append]
  simp

lemma word_lt (memory : Memory) (pos width : Nat) : word memory pos width < 256 ^ width := by
  have bound := ofLittleEndian_lt (load memory pos width)
  rwa [length_load] at bound

/-- How the coded decoder counts the handles of an envelope. -/
lemma handles_eq_iff {before after count : Nat} (few : before ≤ 64) (few' : after ≤ 64)
    (bound : count < 2 ^ 16) : count ≠ sub32 after before ↔ after ≠ before + count := by
  unfold sub32
  omega

/-- How it counts the bytes. -/
lemma bytes_eq_iff {before after count : Nat} (above : before ≤ after) (small : after < 2 ^ 32)
    (bound : count < 2 ^ 32) : count ≠ sub32 after before ↔ after ≠ before + count := by
  unfold sub32
  omega

lemma fixed_checked [Decidable first] [Decidable second] : Fixed after (if first then after.setError error
      else if second then after.setError error' else after) := by
  split
  · exact fixed_setError after _
  split
  · exact fixed_setError after _
  · exact fun _ => id

private lemma agree_inlineEnvelope (simulates : Simulates cfg base size decode walk view)
    (kept : Keeps base size decode) (same : Same cfg base wire coded)
    (small : size ≤ inliningSizeThreshold) (below : pos + 8 ≤ coded.next) :
    Agree (decodeEnvelope (decode depth) size pos wire) (walkKnownEnvelope cfg ⟨size, walk⟩ depth' pos
        (EnvelopeCopy.read coded.memory pos) coded) := by
  have four : size ≤ 4 := small
  have step := same.step
  unfold decodeEnvelope walkKnownEnvelope
  simp only [step.memory]
  rw [if_pos small, if_pos small, flags_read]
  by_cases flagged : word coded.memory (pos + 6) 2 ≠ 1
  · rw [if_pos flagged, if_pos flagged]
    exact agree_setError ..
  rw [if_neg flagged, if_neg flagged]
  refine agree_guardDepth fun depth' => ?_
  unfold visitInternalPadding
  rw [masked_padding]
  by_cases dirty : (load coded.memory (pos + size) (4 - size)).any (· ≠ 0) = true
  · -- The padding is still there after the object was decoded.
    rw [if_pos dirty]
    refine .exit ?_
    by_cases sound : (decode depth pos wire).error = none
    · have frame := kept depth pos wire same.accepting (by rw [step.next]; omega) sound
      have loaded : load (decode depth pos wire).memory (pos + size) (4 - size) =
          load coded.memory (pos + size) (4 - size) := by
        rw [← step.memory]
        refine load_congr fun addr low high => frame addr (by omega) ?_
        rw [step.next]
        omega
      rw [loaded, if_pos dirty]
      split <;> simp [setError, sound]
    · exact fixed_checked.sticky (Option.isSome_iff_ne_none.mpr sound)
  · rw [if_neg dirty]
    refine (simulates.agree depth depth' pos wire coded same (by omega)).andThen fixed_checked
      (fun coded => (lockstep_grows cfg).leaveInlinedEnvelope ..) fun coded' gone step' => ?_
    obtain ⟨ready, next, frame⟩ := simulates.ready same (by omega) gone
    have loaded : load (decode depth pos wire).memory (pos + size) (4 - size) =
        load coded.memory (pos + size) (4 - size) := by
      rw [step'.memory]
      exact load_congr fun addr low high => frame addr (by omega) (by omega)
    have counts := handles_eq_iff (Nat.le_trans same.ready.inv.within step.few)
      (Nat.le_trans ready.inv.within step'.few) (word_lt coded.memory (pos + 4) 2)
    unfold leaveInlinedEnvelope
    rw [numHandles_read, loaded, if_neg dirty, step'.index, step.index]
    split <;> rename_i wrong
    · rw [if_pos (counts.mpr wrong)]
      exact agree_setError ..
    · rw [if_neg fun other => wrong (counts.mp other)]
      exact .go step'

private lemma agree_outOfLineEnvelope (simulates : Simulates cfg base size decode walk view)
    (decoding : cfg.mode = .decode) (same : Same cfg base wire coded)
    (large : ¬size ≤ inliningSizeThreshold) : Agree (decodeEnvelope (decode depth) size pos wire)
      (walkKnownEnvelope cfg ⟨size, walk⟩ depth' pos (EnvelopeCopy.read coded.memory pos) coded) := by
  have step := same.step
  unfold decodeEnvelope walkKnownEnvelope
  simp only [step.memory]
  rw [if_neg large, if_neg large, flags_read]
  by_cases flagged : word coded.memory (pos + 6) 2 ≠ 0
  · rw [if_pos flagged, if_pos flagged]
    exact agree_setError ..
  rw [if_neg flagged, if_neg flagged]
  refine agree_guardDepth fun depth' => ?_
  refine agree_pointer same decoding .envelope
    (fun body wire' => WireAccepted.checkCounts (wire.index + word coded.memory (pos + 4) 2)
      (wire.next + word coded.memory pos 4) (decode depth body wire')) _ (.inl rfl) nofun ?_
  intro wire' coded' same' room _
  refine (simulates.agree depth depth' _ wire' coded' same' room).andThen fixed_checked
    (fun coded => (lockstep_grows cfg).leaveEnvelope ..) fun coded'' gone step'' => ?_
  obtain ⟨ready, next, -⟩ := simulates.ready same' room gone
  have counts := handles_eq_iff (Nat.le_trans same.ready.inv.within step.few)
    (Nat.le_trans ready.inv.within step''.few) (word_lt coded.memory (pos + 4) 2)
  have inside := ready.inside
  have small := step''.small
  have sizes := bytes_eq_iff (Nat.le_trans (Nat.le_trans (Nat.le_add_right _ _) room) next)
    (by omega : coded''.next < 2 ^ 32) (word_lt coded.memory pos 4)
  unfold leaveEnvelope leaveInlinedEnvelope
    WireAccepted.checkCounts
  rw [numBytes_read, numHandles_read, step''.index, step''.next, step.index, step.next]
  split <;> rename_i wrong
  · rw [if_pos (counts.mpr wrong)]
    split <;> exact agree_setError ..
  · rw [if_neg fun other => wrong (counts.mp other)]
    split <;> rename_i bytes
    · rw [if_pos (sizes.mpr bytes)]
      exact agree_setError ..
    · rw [if_neg fun other => bytes (sizes.mp other)]
      exact .go step''

/-- An envelope that is not set. -/
private lemma leaveEnvelope_zero (zero : word coded.memory pos 8 = 0) :
    coded.leaveEnvelope (EnvelopeCopy.read coded.memory pos) coded = .go coded := by
  rw [show 8 = 4 + (2 + 2) from rfl, word_add, word_add] at zero
  have bytes : word coded.memory pos 4 = 0 := by omega
  have handles : word coded.memory (pos + 4) 2 = 0 := by omega
  unfold leaveEnvelope leaveInlinedEnvelope
    EnvelopeCopy.read sub32
  simp [bytes, handles]

/-- What is the same for known and unknown envelopes. -/
lemma agree_setEnvelope (step : Match wire coded) {set : Nat → Wire → Wire}
    (wrong : word coded.memory (pos + 6) 2 ≠ 1 → word coded.memory (pos + 6) 2 ≠ 0 →
      (set pos wire).error.isSome = true)
    (inside : word coded.memory (pos + 6) 2 = 1 ∨ word coded.memory (pos + 6) 2 = 0 →
      Agree (set pos wire) (match payload with
      | some payload => walkKnownEnvelope cfg payload depth' pos
        (EnvelopeCopy.read coded.memory pos) coded
      | none => walkUnknownEnvelope cfg isResource depth' pos
        (EnvelopeCopy.read coded.memory pos) coded)) :
    Agree (decodeOptionalEnvelope set pos wire)
      (walkEnvelope cfg payload isResource depth' pos coded) := by
  unfold decodeOptionalEnvelope walkEnvelope
  simp only
  rw [step.memory, flags_read]
  by_cases invalid : word coded.memory (pos + 6) 2 ≠ 1 ∧ word coded.memory (pos + 6) 2 ≠ 0
  · have set : word coded.memory pos 8 ≠ 0 := by
      rw [show 8 = 6 + 2 from rfl, word_add]
      omega
    rw [if_pos invalid, if_neg set]
    exact .exit (wrong invalid.1 invalid.2)
  rw [if_neg invalid]
  by_cases zero : word coded.memory pos 8 = 0
  · rw [if_pos zero, if_pos zero, leaveEnvelope_zero zero]
    exact .go step
  · rw [if_neg zero, if_neg zero]
    exact inside (by omega)

lemma agree_unknownEnvelope (same : Same cfg base wire coded) {isResource : Bool}
    (valid : word coded.memory (pos + 6) 2 = 1 ∨ word coded.memory (pos + 6) 2 = 0) :
    Agree (decodeUnknownEnvelope pos wire) (walkUnknownEnvelope cfg isResource depth' pos
        (EnvelopeCopy.read coded.memory pos) coded) := by
  have step := same.step
  -- Once the coded decoder has met the envelope, nothing more is said.
  have met : ∀ (dec : Coded) envelope leave,
      (∀ coded : Coded, coded.visits <+: (leave coded : Outcome).decoder.visits) →
      Excused (decodeUnknownEnvelope pos wire)
        ((dec.visitUnknownEnvelope cfg envelope pos isResource).andThen leave) := by
    intro dec envelope leave grows
    refine Excused.andThen (.inr (.inr ⟨envelope, ?_⟩)) (fun _ => id) grows
    exact (visitUnknownEnvelope_visited envelope pos isResource).subset (by simp)
  unfold walkUnknownEnvelope
  rw [flags_read, numBytes_read]
  split
  · refine agree_guardDepth fun _ => .excused (met coded _ _ fun coded => ?_)
    exact (lockstep_grows cfg).leaveInlinedEnvelope ..
  rename_i inlined
  refine agree_guardDepth fun _ => ?_
  by_cases room : Room coded (word coded.memory pos 4)
  · rw [visitPointer_room step room (.inl rfl) nofun]
    exact .excused (met _ _ _ fun coded => (lockstep_grows cfg).leaveEnvelope ..)
  obtain ⟨_, stopped⟩ := visitPointer_full step room
  rw [stopped]
  unfold decodeUnknownEnvelope
  simp only [step.memory]
  rw [if_pos (valid.resolve_left inlined)]
  split
  · exact agree_setError ..
  · exact .exit (allocThen_full step same.ready.inside room _)

lemma simulates_unknownEnvelope {wireConfig : WireDecoder.Config}
    (alike : Alike coding wireConfig cfg) (isResource : Bool) : Simulates cfg base 8
      (fun _ => decodeOptionalEnvelope decodeUnknownEnvelope)
      (walkEnvelope cfg none isResource) (envelopeHandles base none) where
  fixed _ := (fixed_respected wireConfig).optionalEnvelope fun _ _ =>
    (fixed_respected wireConfig).unknownEnvelope
  grows _ _ _ := (lockstep_grows cfg).envelope .none
  walks := (compositional_took alike.decoding alike.fresh).envelope .none
  agree _ depth pos wire coded same below := by
    refine agree_setEnvelope same.step ?_ fun valid => agree_unknownEnvelope same valid
    intro notInlined notOutOfLine
    unfold decodeUnknownEnvelope
    simp only [same.step.memory]
    rw [if_neg notOutOfLine, if_pos notInlined]
    exact isSome_setError ..

lemma simulates_envelope (simulates : Simulates cfg base size decode walk view)
    (kept : Keeps base size decode) {wireConfig : WireDecoder.Config}
    (alike : Alike coding wireConfig cfg) (isResource : Bool) : Simulates cfg base 8
      (fun depth => decodeOptionalEnvelope (decodeEnvelope (decode depth) size))
      (walkEnvelope cfg (some ⟨size, walk⟩) isResource) (envelopeHandles base (some ⟨size, view⟩)) where
  fixed depth := (fixed_respected wireConfig).optionalEnvelope fun _ _ =>
    (fixed_respected wireConfig).envelope (simulates.fixed depth)
  grows _ _ _ := (lockstep_grows cfg).envelope (.some ⟨rfl, simulates.grows⟩)
  walks := (compositional_took alike.decoding alike.fresh).envelope (.some ⟨rfl, simulates.walks⟩)
  agree depth depth' pos wire coded same below := by
    refine agree_setEnvelope same.step ?_ fun _ => ?_
    · intro notInlined notOutOfLine
      unfold decodeEnvelope
      simp only [same.step.memory]
      rw [if_pos notInlined, if_pos notOutOfLine, ite_self]
      exact isSome_setError ..
    · by_cases small : size ≤ inliningSizeThreshold
      · exact agree_inlineEnvelope simulates kept same small below
      · exact agree_outOfLineEnvelope simulates alike.decoding same small

end

/-! ## Tables -/

/-- The envelopes of a table from an ordinal on. -/
def FieldsAgree (cfg : Config) (base ordinal : Nat)
    (decode : (depth count pos : Nat) → Wire → Wire)
    (payloads : List (Nat × Payload)) : Prop :=
  ∀ isResource depth depth' count pos wire coded, Same cfg base wire coded →
    pos + count * 8 ≤ coded.next →
    Agree (decode depth count pos wire)
      (walkEnvelopes cfg isResource depth' count ordinal payloads pos coded)

section

variable {cfg : Config} {coding : Coding} {wireConfig : WireDecoder.Config}
  {base size ordinal : Nat} {wire : Wire} {coded : Coded} {pos depth depth' count : Nat}
  {payloads more : List (Nat × Payload)}
  {payload : Option Payload} {isResource : Bool}
  {decode one : Nat → Nat → Wire → Wire} {view : Memory → Nat → List Handle}
  {rest : (depth count pos : Nat) → Wire → Wire}

private lemma nextField_above {α : Type} {fields : List (Nat × α)}
    (above : ∀ field ∈ fields, ordinal < field.1) : nextField ordinal fields = (none, fields) := by
  cases fields with
  | nil => rfl
  | cons field _ =>
    obtain ⟨known, payload⟩ := field
    have later : known ≠ ordinal := Nat.ne_of_gt (above (known, payload) mem_cons_self)
    simp only [nextField]
    rw [if_neg later]

/-- One envelope, and then the others. -/
lemma agree_nextEnvelope (first : ∀ isResource, Simulates cfg base 8 one
      (walkEnvelope cfg payload isResource) view) (next : nextField ordinal payloads = (payload, more))
    (fixed : ∀ depth count pos wire, Fixed wire (rest depth count pos wire)) (alike : Lockstep.AlikeFields
      (fun (dec : Coded) outcome (_ : Outcome) => dec.visits <+: outcome.decoder.visits)
      more more) (others : FieldsAgree cfg base (ordinal + 1) rest more)
    (isResource : Bool) (depth depth' : Nat) (same : Same cfg base wire coded)
    (below : pos + (count + 1) * 8 ≤ coded.next) : Agree (rest depth count (pos + 8) (one depth pos wire))
      (walkEnvelopes cfg isResource depth' (count + 1) ordinal payloads pos coded) := by
  simp only [walkEnvelopes, next]
  refine ((first isResource).agree depth depth' pos wire coded same (by omega)).andThen
    (fixed _ _ _ _) (fun coded => (lockstep_grows cfg).envelopes count _ _ alike coded)
    fun coded' gone step => ?_
  obtain ⟨ready, _, _⟩ := (first isResource).ready same (by omega) gone
  exact others _ _ _ _ _ _ _ ⟨step, ready⟩ (by omega)

private lemma agree_unknownFields (alike : Alike coding wireConfig cfg) (ordinal : Nat) :
    FieldsAgree cfg base ordinal
      (fun _ => decodeEach (decodeOptionalEnvelope decodeUnknownEnvelope) 8) [] := by
  intro isResource depth depth' count pos wire coded same _
  induction count generalizing ordinal pos wire coded with
  | zero => exact .go same.step
  | succ count ih =>
    have first : Simulates cfg base 8 _ _ _ :=
      simulates_unknownEnvelope alike isResource
    refine (first.agree depth depth' pos wire coded same (by omega)).andThen ?_
      (fun coded => (lockstep_grows cfg).envelopes count _ _ .nil coded)
      fun coded' gone step => ?_
    · exact (fixed_respected wireConfig).each (first.fixed depth) 8 count (pos + 8) _
    · obtain ⟨ready, _, _⟩ := first.ready same (by omega) gone
      exact ih (ordinal + 1) (pos + 8) _ coded' ⟨step, ready⟩ (by omega)

lemma agree_table (decoding : cfg.mode = .decode)
    (inside : FieldsAgree cfg base 1 rest payloads) (same : Same cfg base wire coded) :
    Agree (decodeTable pos (fun count base wire =>
        wire.deeper coding depth diff fun depth wire => rest depth count base wire) wire)
      (walkTable cfg isResource payloads depth' pos coded) := by
  have step := same.step
  unfold decodeTable walkTable
  simp only [step.memory]
  by_cases null : word coded.memory (pos + 8) 8 = 0
  · have absent : word coded.memory (pos + 8) 8 ≠ allocPresent := by
      rw [null]
      decide
    rw [if_pos absent, if_pos null]
    split
    · exact agree_setError ..
    · exact agree_guardDepth fun _ => agree_setError ..
  rw [if_neg null]
  by_cases marked : word coded.memory (pos + 8) 8 = allocPresent
  · rw [if_neg (not_not.mpr marked)]
    by_cases huge : word coded.memory pos 8 * 8 ≥ 2 ^ 32
    · rw [if_pos huge]
      split
      · exact agree_setError ..
      · refine .exit (allocThen_full step same.ready.inside (not_room step ?_) _)
        omega
    · rw [if_neg huge, if_neg (by omega), Nat.mul_comm 8]
      refine agree_guardDepth fun depth' => ?_
      refine agree_pointer same decoding .other (fun object wire =>
        wire.deeper coding depth diff fun depth wire =>
          rest depth (word coded.memory pos 8) object wire) _ (.inr marked) nofun ?_
      intro _ _ same' room _
      exact agree_deeper same'.step.error fun depth => inside _ _ _ _ _ _ _ same' room
  · -- The walker looks at the marker only when it allocates the envelopes.
    rw [if_pos marked]
    split
    · exact agree_setError ..
    refine agree_guardDepth fun _ => ?_
    unfold visitPointer
    rw [if_pos ⟨nofun, marked⟩]
    exact agree_setError ..

end

/-! ## Structs -/

/-- The bytes that a mask selects are zero. -/
def Clean (memory : Memory) (pos : Nat) (padding : Padding) : Prop :=
  (List.zipWith (· &&& ·) (load memory (pos + padding.offset) padding.mask.length)
    padding.mask).any (· ≠ 0) = false

/-- A padding byte of a struct does not belong to the members from an offset on. -/
def Apart (members : Members) (off : Nat) (padding : Padding) : Prop :=
  ∀ index byte, padding.mask[index]? = some byte → byte ≠ 0 →
    padding.offset + index < off ∨ members.gapAt (padding.offset + index - off) = true

/-- A type and a table that describes it are decoded and walked in step. -/
abbrev TypeSimulates (coding : Coding) (wireConfig : WireDecoder.Config) (cfg : Config)
    (base : Nat) (ty : Ty) (table : CodedType) : Prop :=
  Simulates cfg base ty.inlineSize (Ty.decode coding wireConfig ty) (CodedType.walk cfg table)
    (CodedType.handlesIn base table)

/-- The fields of a struct are decoded and walked in step. -/
inductive MembersSimulate (coding : Coding) (wireConfig : WireDecoder.Config) (cfg : Config)
    (base : Nat) : Members → (off : Nat) → List (Nat × CodedType) → Prop where
  | nil (off : Nat) : MembersSimulate coding wireConfig cfg base .nil off []
  | cons {ty : Ty} {table : CodedType} {gap off : Nat} {rest : Members}
    {more : List (Nat × CodedType)} :
    Simulates cfg base ty.inlineSize (Ty.decode coding wireConfig ty)
      (CodedType.walk cfg table) (CodedType.handlesIn base table) →
    MembersSimulate coding wireConfig cfg base rest (off + (ty.inlineSize + gap)) more →
    MembersSimulate coding wireConfig cfg base (.cons ty gap rest) off
      ((off, table) :: more)
  | skip {ty : Ty} {gap off : Nat} {rest : Members} {fields : List (Nat × CodedType)} :
    (∀ depth pos wire, Ty.decode coding wireConfig ty depth pos wire = wire) →
    MembersSimulate coding wireConfig cfg base rest (off + (ty.inlineSize + gap)) fields →
    MembersSimulate coding wireConfig cfg base (.cons ty gap rest) off fields

section

variable {cfg : Config} {coding : Coding} {wireConfig : WireDecoder.Config}
  {base off pos depth depth' : Nat} {wire : Wire} {coded after : Coded}
  {memory memory' : Memory} {padding : Padding} {paddings : List Padding} {members : Members}
  {fields more : List (Nat × CodedType)} {elements : Elements} {ty : Ty} {gap : Nat}

lemma clean_congr (same : ∀ index byte, padding.mask[index]? = some byte → byte ≠ 0 →
      memory' (pos + (padding.offset + index)) = memory (pos + (padding.offset + index))) :
    Clean memory' pos padding ↔ Clean memory pos padding := by
  have masked : zipWith (· &&& ·)
        (load memory' (pos + padding.offset) padding.mask.length) padding.mask =
      zipWith (· &&& ·)
        (load memory (pos + padding.offset) padding.mask.length) padding.mask := by
    apply ext_getElem?
    intro index
    rw [List.getElem?_zipWith, List.getElem?_zipWith, getElem?_load, getElem?_load]
    cases selected : padding.mask[index]? with
    | none =>
      have outside := List.getElem?_eq_none_iff.mp selected
      simp only [if_neg (Nat.not_lt.mpr outside)]
    | some byte =>
      obtain ⟨inside, -⟩ := List.getElem?_eq_some_iff.mp selected
      simp only [if_pos inside]
      by_cases zero : byte = 0
      · simp [zero]
      · rw [Nat.add_assoc, same index byte selected zero]
  unfold Clean
  rw [masked]

lemma checkPadding_clean (clean : Clean wire.memory pos padding) : wire.checkPadding pos padding = wire := by
  unfold checkPadding
  rw [if_neg (Bool.eq_false_iff.mp clean)]

private lemma checkPaddings_clean (paddings : List Padding)
    (clean : ∀ padding ∈ paddings, Clean wire.memory pos padding) :
    checkPaddings pos paddings wire = wire := by
  induction paddings with
  | nil => rfl
  | cons padding _ ih =>
    rw [checkPaddings, checkPadding_clean (clean padding mem_cons_self)]
    exact ih fun other mem => clean other (mem_cons_of_mem _ mem)

private lemma checkPaddings_dirty (cfg : WireDecoder.Config) (paddings : List Padding)
    (mem : padding ∈ paddings) (dirty : ¬ Clean wire.memory pos padding) :
    (checkPaddings pos paddings wire).error.isSome = true := by
  induction paddings with
  | nil => cases mem
  | cons first rest ih =>
    rw [checkPaddings]
    by_cases clean : Clean wire.memory pos first
    · rw [checkPadding_clean clean]
      rcases mem_cons.mp mem with rfl | mem
      · exact absurd clean dirty
      · exact ih mem
    · refine ((fixed_respected cfg).checkPaddings rest).sticky ?_
      unfold checkPadding
      rw [if_pos (Bool.eq_true_of_not_eq_false clean)]
      exact isSome_setError ..

lemma visitInternalPadding_clean (clean : Clean coded.memory pos padding) :
    coded.visitInternalPadding (pos + padding.offset) padding.mask = .go coded := by
  unfold visitInternalPadding
  rw [if_neg (Bool.eq_false_iff.mp clean)]

/-- Padding bytes are not in the first member. -/
lemma Apart.outside (apart : Apart (.cons ty gap members) off padding)
    (selected : padding.mask[index]? = some byte) (nonzero : byte ≠ 0) :
    padding.offset + index < off ∨ off + ty.inlineSize ≤ padding.offset + index := by
  by_contra inside
  rw [not_or] at inside
  rcases apart index byte selected nonzero with before | gapAt
  · exact inside.1 before
  · rw [Members.gapAt, if_pos (by omega)] at gapAt
    cases gapAt

lemma Apart.rest (apart : Apart (.cons ty gap members) off padding) :
    Apart members (off + (ty.inlineSize + gap)) padding := by
  intro index byte selected nonzero
  rcases apart index byte selected nonzero with before | gapAt
  · exact .inl (by omega)
  rw [Members.gapAt] at gapAt
  split at gapAt
  · cases gapAt
  split at gapAt
  · exact .inl (by omega)
  · rw [Nat.sub_sub] at gapAt
    exact .inr gapAt

/-- Members that are not in the table are not decoded. -/
lemma MembersSimulate.idle (simulate : MembersSimulate coding wireConfig cfg base members off fields)
    (none : fields = []) (pos : Nat) : Members.decode coding wireConfig members depth pos wire = wire := by
  induction simulate generalizing pos with
  | nil => rfl
  | cons => cases none
  | skip idle _ ih => rw [Members.decode, idle, ih none]

/-- The first member that is in the table. -/
lemma MembersSimulate.head (simulate : MembersSimulate coding wireConfig cfg base members off fields)
    (same : fields = field :: more) : ∃ ty gap rest, TypeSimulates coding wireConfig cfg base ty field.2 ∧
      MembersSimulate coding wireConfig cfg base rest (field.1 + (ty.inlineSize + gap)) more ∧
      field.1 + (ty.inlineSize + gap) + rest.size = off + members.size ∧ (∀ depth pos wire,
        Members.decode coding wireConfig members depth (pos + off) wire =
        Members.decode coding wireConfig rest depth (pos + (field.1 + (ty.inlineSize + gap)))
          (Ty.decode coding wireConfig ty depth (pos + field.1) wire)) ∧
      ∀ padding, Apart members off padding → Apart (.cons ty gap rest) field.1 padding := by
  induction simulate with
  | nil => cases same
  | @cons ty _ gap off rest _ simulates more _ =>
    cases same
    refine ⟨ty, gap, rest, simulates, more, ?_, fun depth pos wire => ?_, fun _ => id⟩
    · rw [Members.size]
      omega
    · rw [Members.decode, Nat.add_assoc]
  | @skip ty gap off rest fields idle _ ih =>
    obtain ⟨ty', gap', rest', simulates, more, sizes, decoded, apart⟩ := ih same
    refine ⟨ty', gap', rest', simulates, more, ?_, fun depth pos wire => ?_,
      fun padding outside => apart padding outside.rest⟩
    · rw [sizes, Members.size]
      omega
    · rw [Members.decode, idle, Nat.add_assoc, decoded]

/-- Members and elements in step, when the padding is zero. -/
lemma agree_elements :
    (elements : Elements) → {members : Members} → {off : Nat} → {wire : Wire} → {coded : Coded} →
    MembersSimulate coding wireConfig cfg base members off (Elements.fields elements) →
    (∀ padding ∈ Elements.paddings elements, Apart members off padding) →
    (∀ padding ∈ Elements.paddings elements, Clean coded.memory pos padding) →
    Same cfg base wire coded → pos + (off + members.size) ≤ coded.next →
    Agree (Members.decode coding wireConfig members depth (pos + off) wire)
      (Elements.walk cfg elements depth' pos coded)
  | .nil, _, _, _, _, simulate, _, _, same, _ => by
    rw [simulate.idle rfl]
    exact .go same.step
  | .padding padding rest, _, _, _, _, simulate, apart, clean, same, below => by
    rw [Elements.walk, visitInternalPadding_clean (clean padding mem_cons_self)]
    exact agree_elements rest simulate
      (fun other mem => apart other (mem_cons_of_mem _ mem))
      (fun other mem => clean other (mem_cons_of_mem _ mem)) same below
  | .field off' table others, members, off, wire, coded, simulate, apart, clean, same,
      below => by
    obtain ⟨ty, gap, rest, simulates, more, sizes, decoded, apart'⟩ := simulate.head rfl
    simp only at simulates more sizes decoded apart'
    rw [decoded]
    refine (simulates.agree depth depth' _ wire coded same (by omega)).andThen
      ((fixed_respected wireConfig).decodeMembers rest depth _ _)
      (fun coded => (lockstep_grows cfg).walkElements others depth' pos coded)
      fun coded' gone step => ?_
    obtain ⟨ready, next, frame⟩ := simulates.ready same (by omega) gone
    refine agree_elements others more (fun padding mem => (apart' padding (apart padding mem)).rest)
      (fun padding mem => ?_) ⟨step, ready⟩ (by omega)
    refine (clean_congr fun index byte selected nonzero => ?_).mpr (clean padding mem)
    have outside := (apart' padding (apart padding mem)).outside selected nonzero
    refine frame _ (by omega) ?_
    have small := apart padding mem index byte selected nonzero
    rcases small with _ | gapAt
    · omega
    · have inside := members.gapAt_lt gapAt
      omega

/-- A walk over the elements that succeeds has found the padding zero. -/
lemma clean_of_go : (elements : Elements) → {members : Members} → {off : Nat} → {coded : Coded} →
    MembersSimulate coding wireConfig cfg base members off (Elements.fields elements) →
    (∀ padding ∈ Elements.paddings elements, Apart members off padding) →
    Ready cfg base coded → pos + (off + members.size) ≤ coded.next →
    Elements.walk cfg elements depth pos coded = .go after →
    ∀ padding ∈ Elements.paddings elements, Clean coded.memory pos padding
  | .nil, _, _, _, _, _, _, _, _ => nofun
  | .padding padding rest, _, _, _, simulate, apart, ready, below, gone => by
    obtain ⟨middle, checked, gone⟩ := Outcome.andThen_eq_go.mp gone
    obtain ⟨clean, rfl⟩ := CodedDecoder.visitInternalPadding_eq_go.mp checked
    have others := clean_of_go rest simulate
      (fun other mem => apart other (mem_cons_of_mem _ mem)) ready below gone
    intro other mem
    rcases mem_cons.mp mem with rfl | mem
    · exact clean
    · exact others other mem
  | .field off' table others, members, off, coded, simulate, apart, ready, below, gone => by
    obtain ⟨_, _, rest, simulates, more, sizes, _, apart'⟩ := simulate.head rfl
    simp only at simulates more sizes apart'
    obtain ⟨middle, walked, gone⟩ := Outcome.andThen_eq_go.mp gone
    obtain ⟨held, took⟩ := simulates.walks depth _ coded middle ready (by omega) walked
    have next := took.next
    have clean := clean_of_go others more
      (fun padding mem => (apart' padding (apart padding mem)).rest) took.ready (by omega) gone
    intro padding mem
    refine (clean_congr fun index byte selected nonzero => ?_).mp (clean padding mem)
    have outside := (apart' padding (apart padding mem)).outside selected nonzero
    refine took.frame _ (by omega) (.inl ?_)
    rcases apart padding mem index byte selected nonzero with _ | gapAt
    · omega
    · have inside := members.gapAt_lt gapAt
      omega

/-- The decoder is only aborted in an unknown envelope. -/
private lemma lockstep_aborts (cfg : Config) : Lockstep cfg cfg
    fun _ outcome _ => ∀ coded, outcome = .abort coded → ∃ envelope, Visit.unknown envelope ∈ coded.visits where
  mode := rfl
  utf8 := rfl
  go _ := nofun
  exit _ _ := nofun
  andThen {_ left _ _ _} first more := by
    cases left with
    | go middle => exact more middle
    | exit _ middle => exact nofun
    | abort middle => exact first
  place _ := nofun
  handle dec pos attrs coded aborted := by
    unfold visitHandle at aborted
    simp only at aborted
    repeat' split at aborted
    all_goals cases aborted
  unknown dec envelope pos isResource _ coded aborted := by
    have visited : _ <+: (dec.visitUnknownEnvelope cfg _ _ _).decoder.visits :=
      visitUnknownEnvelope_visited envelope pos isResource
    rw [aborted] at visited
    exact ⟨envelope, visited.subset (by simp)⟩

lemma agree_struct (padded : members.PaddedBy paddings)
    (simulate : MembersSimulate coding wireConfig cfg base members 0 (Elements.fields elements))
    (described : ∀ padding, padding ∈ Elements.paddings elements ↔ padding ∈ paddings)
    (same : Same cfg base wire coded) (below : pos + members.size ≤ coded.next) :
    Agree (Members.decode coding wireConfig members depth pos (checkPaddings pos paddings wire))
      (walkStruct false (Elements.walk cfg elements depth') pos coded) := by
  have apart : ∀ padding ∈ Elements.paddings elements, Apart members 0 padding :=
    fun padding mem index byte selected nonzero =>
      .inr (padded.sound padding ((described padding).mp mem) index byte selected nonzero)
  have inside : pos + (0 + members.size) ≤ coded.next := by omega
  unfold walkStruct
  rw [if_neg fun wrong => Bool.false_ne_true wrong.1]
  by_cases clean : ∀ padding ∈ paddings, Clean coded.memory pos padding
  · rw [checkPaddings_clean paddings (by rwa [same.step.memory])]
    exact agree_elements elements simulate apart
      (fun padding mem => clean padding ((described padding).mp mem)) same inside
  · simp only [not_forall] at clean
    obtain ⟨padding, mem, dirty⟩ := clean
    rw [← same.step.memory] at dirty
    have failed : (Members.decode coding wireConfig members depth pos
        (checkPaddings pos paddings wire)).error.isSome = true :=
      ((fixed_respected wireConfig).decodeMembers members depth pos _).sticky
        (checkPaddings_dirty wireConfig paddings mem dirty)
    cases walked : Elements.walk cfg elements depth' pos coded with
    | go after =>
      have found := clean_of_go elements simulate apart same.ready inside walked padding
        ((described padding).mpr mem)
      rw [← same.step.memory] at found
      exact absurd found dirty
    | exit error after => exact .exit failed
    | abort after =>
      exact .excused (.inr (.inr
        ((lockstep_aborts cfg).walkElements elements depth' pos coded after walked)))

end
/-! ## Types -/

section

variable {cfg : Config} {coding : Coding} {wireConfig : WireDecoder.Config}
  {base off pos depth depth' : Nat} {wire : Wire} {coded : Coded} {table : CodedType}
  {known more : TableFields} {ordinal : Nat}

lemma simulates_of_agree (alike : Alike coding wireConfig cfg) {ty : Ty} (described : Ty.DescribedBy ty table)
    (agree : ∀ depth depth' pos wire coded, Same cfg base wire coded →
      pos + ty.inlineSize ≤ coded.next → Agree (Ty.decode coding wireConfig ty depth pos wire)
        (CodedType.walk cfg table depth' pos coded)) : TypeSimulates coding wireConfig cfg base ty table where
  fixed := (fixed_respected wireConfig).decode ty
  grows := (lockstep_grows cfg).walk table
  walks depth := by
    rw [← typeSize_of_describedBy described]
    exact walks_type alike.decoding alike.fresh (wellFormed_of_describedBy ty described)
  agree := agree

private lemma keeps_type (alike : Alike coding wireConfig cfg) (formed : ty.WellFormed) :
    Keeps base ty.inlineSize (Ty.decode coding wireConfig ty) := by
  intro depth pos wire ready below sound addr outside before
  have fresh := alike.fresh
  rw [← alike.checks] at fresh
  obtain ⟨_, accepts⟩ :=
    WireAccepted.decode_accepts fresh ty formed depth pos wire ready below sound
  exact accepts.frame addr outside (.inl before)

private lemma walk_unchecked (unchecked : Unchecked size table) :
    CodedType.walk cfg table depth pos coded = .go coded := by
  cases table with
  | primitive _ => exact if_neg fun wrong => unchecked.1 wrong.1
  | enum underlying strict _ =>
    rw [CodedType.walk, walkEnum, unchecked.1]
    exact if_neg fun wrong => Bool.false_ne_true wrong.1
  | bits underlying strict _ =>
    rw [CodedType.walk, walkBits, unchecked.1]
    exact if_neg fun wrong => Bool.false_ne_true wrong.1
  | _ => cases unchecked

lemma walk_of_not_needWalk (plain : table.needWalk = false) :
    CodedType.walk cfg table depth pos coded = .go coded := by
  cases table with
  | primitive _ => exact if_neg fun wrong => of_decide_eq_false plain wrong.1
  | _ => cases plain

lemma le_of_describedBy : (fields : Fields) → {ordinal : Nat} → {known : TableFields} →
    Fields.DescribedBy fields ordinal known → ∀ field ∈ TableFields.payloads cfg known, ordinal ≤ field.1
  | .nil, _, _, rfl => nofun
  | .reserved rest, _, _, described => fun field mem =>
    Nat.le_of_succ_le (le_of_describedBy rest described field mem)
  | .field _ rest, _, _, ⟨_, _, rfl, _, others⟩ => fun field mem => by
    rcases mem_cons.mp mem with rfl | mem
    · exact le_rfl
    · exact Nat.le_of_succ_le (le_of_describedBy rest others field mem)

variable (alike : Alike coding wireConfig cfg)
include alike

set_option linter.unusedSectionVars false in
mutual

lemma simulates_type : (ty : Ty) → ty.WellFormed → {table : CodedType} → Ty.DescribedBy ty table →
    TypeSimulates coding wireConfig cfg base ty table
  | .primitive size, _, table, described =>
    simulates_of_agree alike described fun _ _ _ _ _ same _ => by
      rw [walk_unchecked described]
      exact .go same.step
  | .bool, _, _, rfl => simulates_of_agree alike rfl fun _ _ _ _ _ same _ => agree_bool same.step
  | .array element count, ⟨formed, _⟩, _, ⟨inner, rfl, described⟩ =>
    simulates_of_agree alike ⟨inner, rfl, described⟩ fun _ _ _ _ _ same below => by
      rw [Ty.inlineSize, Nat.mul_comm] at below
      rw [Nat.mul_comm]
      exact agree_iterable (simulates_type element formed described)
        (element.inlineSize_pos formed)
        (fun compatible => WireRoundTrip.decode_compatible element formed compatible)
        (fun plain _ _ _ => walk_of_not_needWalk plain) count _ same below
  | .vector element limit optional, formed, _, ⟨inner, rfl, described⟩ =>
    simulates_of_agree alike ⟨inner, rfl, described⟩ fun _ _ _ _ _ same _ =>
      agree_vector (simulates_type element formed described) alike.decoding
        (element.inlineSize_pos formed)
        (fun compatible => WireRoundTrip.decode_compatible element formed compatible)
        (fun plain _ _ _ => walk_of_not_needWalk plain) same
  | .string limit optional, _, _, rfl =>
    simulates_of_agree alike rfl fun _ _ _ _ _ same below =>
      agree_string same alike.decoding alike.utf8 below
  | .handle attrs optional, _, _, rfl =>
    simulates_of_agree alike rfl fun _ _ _ _ _ same below =>
      agree_handle alike.decoding alike.checks same attrs
  | .box inner, formed, _, ⟨elements, rfl, described⟩ =>
    simulates_of_agree alike ⟨elements, rfl, described⟩ fun _ _ _ _ _ same _ =>
      agree_box (simulates_type inner formed described) alike.decoding same
  | .struct members paddings, ⟨formed, _, padded⟩, _, ⟨elements, rfl, described, masks⟩ =>
    simulates_of_agree alike ⟨elements, rfl, described, masks⟩ fun _ _ _ _ _ same below =>
      agree_struct padded (simulates_members members formed 0 described) masks same below
  | .table fields, formed, _, ⟨isResource, known, rfl, described⟩ =>
    simulates_of_agree alike ⟨isResource, known, rfl, described⟩ fun _ _ _ _ _ same _ =>
      agree_table alike.decoding (agree_fields fields formed 1 described) same

lemma simulates_members : (members : Members) → members.WellFormed → (off : Nat) →
    {fields : List (Nat × CodedType)} → Members.DescribedBy members off fields →
    MembersSimulate coding wireConfig cfg base members off fields
  | .nil, _, _, _, rfl => .nil _
  | .cons ty _ rest, ⟨formed, others⟩, _, _, .inl ⟨_, _, rfl, described, more⟩ =>
    .cons (simulates_type ty formed described) (simulates_members rest others _ more)
  | .cons ty _ rest, ⟨formed, others⟩, _, _, .inr ⟨compatible, more⟩ =>
    .skip (WireRoundTrip.decode_compatible ty formed compatible)
      (simulates_members rest others _ more)

lemma agree_fields : (fields : Fields) → fields.WellFormed → (ordinal : Nat) → {known : TableFields} →
    Fields.DescribedBy fields ordinal known →
    FieldsAgree cfg base ordinal (Fields.decode coding wireConfig fields) (TableFields.payloads cfg known)
  | .nil, _, ordinal, _, rfl => by
    have unknown : FieldsAgree cfg base ordinal _ [] :=
      agree_unknownFields alike ordinal
    intro isResource depth depth' count pos wire coded same below
    rw [Fields.decode]
    exact unknown isResource depth depth' count pos wire coded same below
  | .reserved rest, formed, _, known, described => by
    intro isResource depth depth' count pos wire coded same below
    cases count with
    | zero => exact .go same.step
    | succ count =>
      have step := agree_nextEnvelope (simulates_unknownEnvelope alike)
        (nextField_above (le_of_describedBy rest described))
        ((fixed_respected wireConfig).decodeFields rest)
        ((lockstep_grows cfg).walkTableFields known)
        (agree_fields rest formed _ described) isResource depth depth' same below
      exact step
  | .field ty rest, ⟨formed, others⟩, ordinal, _, ⟨table, more, rfl, described, next⟩ => by
    intro isResource depth depth' count pos wire coded same below
    cases count with
    | zero => exact .go same.step
    | succ count =>
      have first : nextField ordinal
          (TableFields.payloads cfg (.field ordinal table more)) =
          (some ⟨ty.inlineSize, CodedType.walk cfg table⟩, TableFields.payloads cfg more) := by
        rw [← typeSize_of_describedBy described]
        exact if_pos rfl
      have step := agree_nextEnvelope
        (simulates_envelope (simulates_type ty formed described)
          (keeps_type alike formed) alike) first
        ((fixed_respected wireConfig).decodeFields rest)
        ((lockstep_grows cfg).walkTableFields more) (agree_fields rest others _ next)
        isResource depth depth' same below
      exact step

end

end

/-! ## The whole message -/

/-- What `fidl_decode_impl` takes for a message. -/
def Ty.IsMessage : Ty → Prop
  | .struct _ _ => True
  | .table _ => True
  | _ => False

/-- The wire decoder for a message. -/
def received (msg : Message) : Wire where
  base := msg.base
  size := msg.size
  memory := msg.memory
  handles := msg.handles

section

variable {cfg : Config} {coding : Coding} {base : Nat} {ty : Ty} {table : CodedType}
  {wire : Wire} {coded : Coded} {msg : Message} {outcome : Outcome}

lemma primaryObjectSize_of_describedBy (isMessage : Ty.IsMessage ty)
    (described : Ty.DescribedBy ty table) : CodedDecoder.primaryObjectSize table size =
      if align ty.inlineSize > size then .error .bufferTooSmall
      else if align ty.inlineSize > 2 ^ 32 - 1 then .error .firstOutOfLineOverflow
      else .ok (ty.inlineSize, align ty.inlineSize) := by
  cases ty with
  | struct _ _ =>
    obtain ⟨_, rfl, _⟩ := described
    rfl
  | table _ =>
    obtain ⟨_, _, rfl, _⟩ := described
    rfl
  | _ => cases isMessage

lemma match_received (small : msg.size < 2 ^ 32 - 8) (few : msg.handles.length ≤ 64)
    (aligned : 8 ∣ later) : Match ((received msg).advance later) (msg.decoder later) :=
  ⟨rfl, rfl, rfl, rfl, rfl, rfl, rfl, rfl, aligned, small, few⟩

private lemma fidlDecodeImpl_room (isMessage : Ty.IsMessage ty) (described : Ty.DescribedBy ty table)
    (present : msg.base ≠ 0) (aligned : msg.base % 8 = 0)
    (small : msg.size < 2 ^ 32 - 8) (room : Room (msg.decoder 0) ty.inlineSize) :
    fidlDecodeImpl cfg table msg = finish (CodedType.walk { cfg with mode := .decode } table 0 0
        (msg.decoder (align ty.inlineSize))) := by
  obtain ⟨inside, padded⟩ := room
  rw [show (msg.decoder 0).next = 0 from rfl, Nat.zero_add] at inside padded
  have inside : align ty.inlineSize ≤ msg.size := inside
  have bound : ¬ align ty.inlineSize > 2 ^ 32 - 1 := by omega
  unfold fidlDecodeImpl
  rw [if_neg present, if_neg (not_not.mpr aligned),
    primaryObjectSize_of_describedBy isMessage described, if_neg (Nat.not_lt.mpr inside),
    if_neg bound]
  exact if_neg (Bool.eq_false_iff.mp padded)

private lemma fidlDecodeImpl_full (isMessage : Ty.IsMessage ty) (described : Ty.DescribedBy ty table)
    (full : ¬ Room (msg.decoder 0) ty.inlineSize) :
    ∃ error, fidlDecodeImpl cfg table msg = fail error (msg.decoder 0) := by
  rcases entry_cases msg 0 with ⟨error, failed⟩ | ⟨_, next, ⟨-, sized, clean⟩, -⟩
  · exact ⟨error, (failed cfg).1⟩
  rw [primaryObjectSize_of_describedBy isMessage described] at sized
  split at sized
  · cases sized
  rename_i inside
  split at sized <;> cases sized
  unfold Room at full
  rw [show (msg.decoder 0).next = 0 from rfl, Nat.zero_add] at full
  exact absurd ⟨Nat.not_lt.mp inside, clean⟩ full

/-- An error is reported, whichever came first. -/
lemma finish_checkConsumed (failed : wire.error = some error) : wire.checkConsumed.finish.1 = some error := by
  have kept : wire.checkConsumed.error = some error := by
    unfold checkConsumed
    simp only
    repeat' split
    all_goals simp [setError, failed]
  unfold WireDecoder.Decoder.finish
  rw [kept]

/-- The coded decoder finds the whole message consumed. -/
def Consumed (coded : Coded) : Prop :=
  coded.next = coded.size ∧ coded.index = coded.numHandles

private lemma checkConsumed_eq (step : Match wire coded) (ready : Ready cfg base coded)
    (consumed : Consumed coded) : wire.checkConsumed = wire := by
  have total := ready.inv.count
  have bytes : ¬ wire.next < wire.size := by
    rw [step.next, step.size, consumed.1]
    exact Nat.lt_irrefl _
  have handles : ¬ wire.index < wire.handles.length := by
    rw [step.index, step.count, consumed.2, total]
    exact Nat.lt_irrefl _
  unfold checkConsumed
  simp only [if_neg bytes, if_neg handles]

lemma checkConsumed_error (step : Match wire coded) (ready : Ready cfg base coded)
    (left : ¬ Consumed coded) : ∃ error, wire.checkConsumed.error = some error := by
  have inside := ready.inside
  have within := ready.inv.within
  have total := ready.inv.count
  apply Option.ne_none_iff_exists'.mp
  unfold checkConsumed
  by_cases bytes : wire.next < wire.size
  · simp only [if_pos bytes]
    split <;> exact WireAccepted.setError_ne_none _ _
  have handles : wire.index < wire.handles.length := by
    rw [step.next, step.size] at bytes
    rw [step.index, step.count]
    unfold Consumed at left
    omega
  simp only [if_neg bytes, if_pos handles]
  exact WireAccepted.setError_ne_none _ _

/-- What is left of the message is an error for both. -/
private lemma agree_finish (agree : Agree wire outcome)
    (ready : ∀ coded, outcome = .go coded → Ready cfg base coded)
    (shallow : wire.checkConsumed.finish.1 ≠ some .recursionDepthExceeded)
    (shallow' : ∀ coded, finish outcome ≠ .exit .recursionDepthExceeded coded)
    (known : ∀ envelope, Visit.unknown envelope ∉ (finish outcome).decoder.visits) :
    (wire.checkConsumed.finish.1 = none ↔ ∃ coded, finish outcome = .go coded) ∧
      ∀ coded, finish outcome = .go coded → coded.memory = wire.checkConsumed.finish.2.memory := by
  cases agree with
  | excused excused =>
    rcases excused with deep | ⟨coded, rfl⟩ | ⟨count, visited⟩
    · exact absurd (finish_checkConsumed deep) shallow
    · exact absurd rfl (shallow' _)
    · rw [finish_visits] at known
      exact absurd visited (known count)
  | exit failed =>
    obtain ⟨error, found⟩ := Option.isSome_iff_exists.mp failed
    rw [finish_checkConsumed found]
    exact ⟨⟨nofun, nofun⟩, nofun⟩
  | @go coded step =>
    have ready := ready coded rfl
    by_cases consumed : Consumed coded
    · have finished : finish (.go coded) = .go (coded.closeMany coded.unknown) := by
        unfold finish
        simp only
        rw [if_neg (not_not.mpr consumed.1), if_neg (not_not.mpr consumed.2)]
      rw [finished, checkConsumed_eq step ready consumed]
      unfold WireDecoder.Decoder.finish
      rw [step.error]
      refine ⟨⟨fun _ => ⟨_, rfl⟩, fun _ => rfl⟩, fun after gone => ?_⟩
      cases gone
      exact step.memory.symm
    · have stopped : ∃ error, finish (.go coded) = fail error coded := by
        unfold finish
        simp only
        split
        · exact ⟨_, rfl⟩
        rename_i bytes
        rw [if_pos fun handles => consumed ⟨not_not.mp bytes, handles⟩]
        exact ⟨_, rfl⟩
      obtain ⟨error, found⟩ := checkConsumed_error step ready consumed
      obtain ⟨error', stopped⟩ := stopped
      rw [stopped]
      unfold WireDecoder.Decoder.finish
      rw [found]
      exact ⟨⟨nofun, nofun⟩, nofun⟩

/-- `WireDecode` and `fidl_decode_impl` accept the same messages, and decode them to
the same objects. -/
theorem wireDecode_iff_fidlDecodeImpl (wellFormed : ty.WellFormed)
    (described : Ty.DescribedBy ty table) (isMessage : Ty.IsMessage ty)
    (utf8 : coding.isValidUtf8 = cfg.isValidUtf8)
    (fresh : ∀ attrs index successor,
      cfg.processHandle attrs index = .replaced successor → successor ≠ 0)
    (present : msg.base ≠ 0) (aligned : msg.base % 8 = 0)
    (addr : msg.base + msg.size < 2 ^ 64) (small : msg.size < 2 ^ 32 - 8)
    (few : msg.handles.length ≤ 64) (live : ∀ handle ∈ msg.handles, handle ≠ 0)
    (shallow : (wireDecode coding ⟨cfg.processHandle⟩ ty (received msg)).1 ≠
      some .recursionDepthExceeded)
    (shallow' : ∀ coded, fidlDecodeImpl cfg table msg ≠ .exit .recursionDepthExceeded coded)
    (known : ∀ envelope, Visit.unknown envelope ∉ (fidlDecodeImpl cfg table msg).decoder.visits) :
    ((wireDecode coding ⟨cfg.processHandle⟩ ty (received msg)).1 = none ↔
      ∃ coded, fidlDecodeImpl cfg table msg = .go coded) ∧
    ∀ coded, fidlDecodeImpl cfg table msg = .go coded → coded.memory =
      (wireDecode coding ⟨cfg.processHandle⟩ ty (received msg)).2.memory := by
  have start : Match (received msg) (msg.decoder 0) :=
    match_received small few (Nat.dvd_zero 8)
  by_cases room : Room (msg.decoder 0) ty.inlineSize
  · have decoded : fidlDecodeImpl cfg table msg = _ :=
      fidlDecodeImpl_room isMessage described present aligned small room
    have alike : Alike coding ⟨cfg.processHandle⟩ { cfg with mode := .decode } :=
      ⟨rfl, utf8, rfl, fresh⟩
    have inside := room.1
    rw [show (msg.decoder 0).next = 0 from rfl, Nat.zero_add] at inside
    have ready : Ready { cfg with mode := .decode } msg.base
        (msg.decoder (align ty.inlineSize)) :=
      ⟨inv_start _ msg _, rfl, Nat.pos_of_ne_zero present, addr, inside, live⟩
    have same : Same { cfg with mode := .decode } msg.base _ _ :=
      ⟨match_received small few (dvd_align _), ready⟩
    have simulates : Simulates _ msg.base _ _ _ _ :=
      simulates_type alike ty wellFormed described
    have fits : 0 + ty.inlineSize ≤ (msg.decoder (align ty.inlineSize)).next := by
      rw [Nat.zero_add]
      exact le_align _
    have agree := simulates.agree 0 0 0 _ _ same fits
    rw [decoded] at shallow' known ⊢
    have allocated : (received msg).allocThen ty.inlineSize
        (Ty.decode coding ⟨cfg.processHandle⟩ ty 0) =
        Ty.decode coding ⟨cfg.processHandle⟩ ty 0 0
          ((received msg).advance (align ty.inlineSize)) := by
      unfold allocThen
      rw [alloc_room start room]
      simp only [show (msg.decoder 0).next = 0 from rfl, Nat.zero_add]
    unfold wireDecode at shallow ⊢
    rw [allocated] at shallow ⊢
    exact agree_finish agree (fun coded gone => (simulates.ready same fits gone).1) shallow shallow'
      known
  · have refused : ∃ error, fidlDecodeImpl cfg table msg = _ :=
      fidlDecodeImpl_full isMessage described room
    obtain ⟨error, stopped⟩ := refused
    have failed := allocThen_full start (Nat.zero_le _) room
      (Ty.decode coding ⟨cfg.processHandle⟩ ty 0)
    obtain ⟨_, found⟩ := Option.isSome_iff_exists.mp failed
    rw [stopped]
    unfold wireDecode
    rw [finish_checkConsumed found]
    exact ⟨⟨nofun, nofun⟩, nofun⟩

end

/-- The coding table of a struct of a vector of bytes and a table with a handle. -/
def letterTable : CodedType :=
  .struct false 32 (.field 0 (.vector false 16 1 (.primitive .uint8))
    (.field 16 (.table true (.field 1 (.handle false ⟨0, 0⟩) .nil)) .nil))

/-- Three bytes and one handle. -/
def letterAt (base : Nat) : Message where
  base := base
  size := 48
  memory := ofBytes ([3, 0, 0, 0, 0, 0, 0, 0] ++ replicate 8 255 ++ [1, 0, 0, 0, 0, 0, 0, 0] ++
    replicate 8 255 ++ [1, 2, 3, 0, 0, 0, 0, 0] ++ [255, 255, 255, 255, 1, 0, 1, 0])
  handles := [7]

/-- Every handle is as it should be. -/
def trusting : Config where
  mode := .decode
  hlcpp := false
  processHandle _ _ := .unchanged
  isValidUtf8 _ := true

private lemma letter_describedBy : Ty.DescribedBy letter letterTable := by
  refine ⟨_, rfl, .inl ⟨_, _, rfl, ⟨_, rfl, by decide, rfl⟩, .inl ⟨_, _, rfl, ?_, rfl⟩⟩, fun padding => ?_⟩
  · exact ⟨_, _, rfl, _, _, rfl, rfl, rfl⟩
  · exact Iff.rfl

/-- Both decoders accept the struct. -/
theorem wireDecode_iff_fidlDecodeImpl_letter :
    ((wireDecode ⟨false, 2, fun _ => true, rfl⟩ ⟨trusting.processHandle⟩ letter
        (received (letterAt 4096))).1 = none ↔
      ∃ coded, fidlDecodeImpl trusting letterTable (letterAt 4096) = .go coded) ∧
    ∀ coded, fidlDecodeImpl trusting letterTable (letterAt 4096) = .go coded →
      coded.memory = (wireDecode ⟨false, 2, fun _ => true, rfl⟩
        ⟨trusting.processHandle⟩ letter (received (letterAt 4096))).2.memory := by
  have visits : (fidlDecodeImpl trusting letterTable (letterAt 4096)).decoder.visits =
      [.object 32 3, .object 40 8, .handle ⟨0, 0⟩ 0] := by decide +kernel
  refine wireDecode_iff_fidlDecodeImpl letter_wellFormed letter_describedBy trivial rfl nofun
    (by decide) (by decide) (by decide) (by decide) (by decide) (by simp [letterAt])
    (by decide +kernel) nofun fun _ visited => ?_
  rw [visits] at visited
  simp at visited

/-- In a buffer that is not aligned only `WireDecode` accepts it. -/
theorem wireDecode_misaligned :
    (wireDecode ⟨false, 2, fun _ => true, rfl⟩ ⟨trusting.processHandle⟩ letter
        (received (letterAt 4097))).1 = none ∧
      ∃ coded, fidlDecodeImpl trusting letterTable (letterAt 4097) = .exit .misalignedBytes coded :=
  ⟨by decide +kernel, _, rfl⟩

end FuchsiaSdk.DecodersAgree
