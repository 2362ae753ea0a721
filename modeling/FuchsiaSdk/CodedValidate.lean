import FuchsiaSdk.CodedTiling
import FuchsiaSdk.DecodersAgree

/-! `fidl_validate_impl` accepts a message exactly when `fidl_decode_impl` does. The
two walks go through the same objects; the one that decodes writes pointers and
handles, always behind what is still to be read. The one that validates does not
look at the handles, and counts those of unknown envelopes without a limit, so it may
go on where the other has reported an error or failed an assertion. -/
namespace FuchsiaSdk.CodedValidate
open Memory WireFormat CodingTable CodedDecoder CodedExtent Tiling
open CodedTiling (Inside lockstep_inside primaryObjectSize_eq placed_start)
open DecodersAgree (Clean clean_congr visitInternalPadding_clean lockstep_grows)
open CodedDecodeHandles (Ends convertEnvelope_memory finish_visits inv_start lockstep_handles)
open List hiding after

/-- How `fidl_decode_impl` walks. -/
def decoding (cfg : Config) : Config := { cfg with mode := .decode }

/-- How `fidl_validate_impl` walks. -/
def validating (cfg : Config) : Config := { cfg with mode := .validate, hlcpp := false }

/-! ## Two states in step -/

/-- The walks have come to the same place. -/
structure Alike (validated decoded : Decoder) : Prop where
  placed : Placed validated
  size : decoded.size = validated.size
  next : decoded.next = validated.next
  index : decoded.index = validated.index
  visits : decoded.visits = validated.visits
  counted : handleCount validated.visits = validated.index
  numHandles : decoded.numHandles = validated.numHandles
  length : decoded.handles.length = validated.numHandles
  few : validated.numHandles ≤ 64
  below : validated.index ≤ validated.numHandles
  unknown : decoded.unknown.length ≤ decoded.index
  memory : AgreeOn validated.next validated.size validated.memory decoded.memory

/-- The validation makes a visit up to which there are enough handles. -/
structure Reaches (validated : Outcome) (decoded : Decoder) (earlier : List Visit) (last : Visit) :
    Prop where
  noted : earlier ++ [last] <+: validated.decoder.visits
  within : handleCount earlier ≤ decoded.numHandles

/-- How the walks end: together, or that of the decoder at an envelope with more handles than are
left, at a handle that is not there or is refused, or at an envelope that it cannot convert. -/
inductive Agree (cfg : Config) (validated : Outcome) : Outcome → Prop where
  | go {here there : Decoder} : validated = .go here → Alike here there →
    Agree cfg validated (.go there)
  | exit {error error' : DecodeError} {here there : Decoder} : validated = .exit error here →
    Alike here there → Agree cfg validated (.exit error' there)
  | beyond {error : DecodeError} {envelope : EnvelopeCopy} {earlier : List Visit} {there : Decoder} :
    Reaches validated there earlier (.unknown envelope) →
    there.visits = earlier ++ [.unknown envelope] → there.numHandles < handleCount there.visits →
    Agree cfg validated (.exit error there)
  | missing {error : DecodeError} {attrs : HandleAttributes} {index : Nat} {there : Decoder} :
    Reaches validated there there.visits (.handle attrs index) →
    there.handles[index]? = some 0 → Agree cfg validated (.exit error there)
  | refused {error : DecodeError} {attrs : HandleAttributes} {index : Nat} {cleared : Bool}
      {earlier : List Visit} {there : Decoder} :
    Reaches validated there earlier (.handle attrs index) →
    there.visits = earlier ++ [.handle attrs index] →
    cfg.processHandle attrs index = .refused cleared →
    Agree cfg validated (.exit error there)
  | abort {envelope : EnvelopeCopy} {earlier : List Visit} {there : Decoder} :
    Reaches validated there earlier (.unknown envelope) →
    there.visits = earlier ++ [.unknown envelope] → Agree cfg validated (.abort there)

section

variable {cfg : Config} {validated decoded : Outcome} {here there entered entered' : Decoder}
  {start stop pos size : Nat}

/-- A walk only adds to what was visited. -/
abbrev Grows (dec : Decoder) (outcome : Outcome) : Prop :=
  dec.visits <+: outcome.decoder.visits

lemma lockstep_validating (cfg : Config) : Lockstep (validating cfg) (validating cfg)
    fun dec outcome _ => Grows dec outcome := lockstep_grows _

lemma grows_andThen (grows : ∀ dec, Grows dec (body dec)) :
    validated.decoder.visits <+: (validated.andThen body).decoder.visits := by
  cases validated with
  | go middle => exact grows middle
  | exit | abort => exact prefix_rfl

lemma Alike.exits (alike : Alike here there) :
    Agree cfg (.exit error here) (.exit error' there) :=
  .exit rfl alike

lemma Agree.andThen (first : Agree cfg validated decoded) (grows : ∀ dec, Grows dec (body dec))
    (second : ∀ here there, validated = .go here → decoded = .go there → Alike here there →
      Agree cfg (body here) (body' there)) :
    Agree cfg (validated.andThen body) (decoded.andThen body') := by
  have onward {there earlier last} (reaches : Reaches validated there earlier last) :
      Reaches (validated.andThen body) there earlier last :=
    ⟨reaches.noted.trans (grows_andThen grows), reaches.within⟩
  cases first with
  | go same alike =>
    subst same
    exact second _ _ rfl rfl alike
  | exit same alike =>
    subst same
    exact .exit rfl alike
  | beyond reaches visits more => exact .beyond (onward reaches) visits more
  | missing reaches null => exact .missing (onward reaches) null
  | refused reaches visits refused => exact .refused (onward reaches) visits refused
  | abort reaches visits => exact .abort (onward reaches) visits

/-- The index is the number of handles that were visited, modulo 2 ^ 32. -/
def Counts (dec : Decoder) (outcome : Outcome) : Prop :=
  ∀ after, outcome = .go after → after.numHandles = dec.numHandles ∧
    ∃ new, after.visits = dec.visits ++ new ∧
      after.index % 2 ^ 32 = (dec.index + handleCount new) % 2 ^ 32

lemma lockstep_counts (cfg : Config) :
    Lockstep (validating cfg) (validating cfg) fun dec outcome _ => Counts dec outcome where
  mode := rfl
  utf8 := rfl
  go _ := by
    rintro after ⟨⟩
    exact ⟨rfl, [], (append_nil _).symm, rfl⟩
  exit _ _ := nofun
  andThen first more := by
    intro after gone
    obtain ⟨middle, walked, gone⟩ := Outcome.andThen_eq_go.mp gone
    obtain ⟨same, new, visits, index⟩ := first middle walked
    obtain ⟨same', later, visits', index'⟩ := more middle after gone
    refine ⟨same'.trans same, new ++ later, by rw [visits', visits, append_assoc], ?_⟩
    rw [handleCount_append]
    omega
  place _ := by
    rintro after ⟨⟩
    exact ⟨rfl, [.object _ _], rfl, rfl⟩
  handle dec pos attrs := by
    intro after gone
    unfold Decoder.visitHandle at gone
    split at gone
    · cases gone
    · split at gone <;> cases gone
      exact ⟨rfl, [.handle attrs dec.index], rfl, Nat.mod_mod ..⟩
  unknown dec envelope pos isResource _ := by
    rintro after ⟨⟩
    exact ⟨rfl, [.unknown envelope], rfl, Nat.mod_mod ..⟩

/-- What the walks have not gone over is still the same. -/
lemma agreeOn_after (alike : Alike here there) (spans : Spans here after start stop)
    (spans' : Spans there after' start stop)
    (agree : AgreeOn low high here.memory there.memory) (apart : high ≤ start ∨ stop ≤ low)
    (below : high ≤ here.next) : AgreeOn low high after.memory after'.memory := by
  have next := alike.next
  intro addr above within
  rw [spans.frame addr (by omega) (by omega), spans'.frame addr (by omega) (by omega)]
  exact agree addr above within

/-! ## Pointers -/

lemma fits_iff (alike : Alike here there) (agree : AgreeOn ptr (ptr + 8) here.memory there.memory) :
    Fits there (decoding cfg) pointee ptr size later ↔
      Fits here (validating cfg) pointee ptr size later := by
  have marker : word there.memory ptr 8 = word here.memory ptr 8 := word_congr agree.symm
  have same : ∀ low count, here.next ≤ low → low + count ≤ here.size →
      load there.memory low count = load here.memory low count := fun low count above within =>
    load_congr (alike.memory.mono above within).symm
  constructor
  · rintro ⟨marked, added, inside, padded, valid⟩
    rw [marker] at marked
    rw [alike.next] at added padded valid
    rw [alike.size] at inside
    have room := le_addOutOfLine added
    rw [same _ _ (by omega) (by omega)] at padded valid
    exact ⟨marked, added, inside, padded, valid⟩
  · rintro ⟨marked, added, inside, padded, valid⟩
    have room := le_addOutOfLine added
    refine ⟨?_, ?_, ?_, ?_, ?_⟩
    · rw [marker]
      exact marked
    · rw [alike.next]
      exact added
    · rw [alike.size]
      exact inside
    · rw [alike.next, same _ _ (by omega) (by omega)]
      exact padded
    · rw [alike.next, same _ _ (by omega) (by omega)]
      exact valid

lemma Alike.place (alike : Alike here there) {ptr next : Nat}
    (fits : Fits here (validating cfg) pointee ptr size next) (below : ptr + 8 ≤ here.next) :
    Alike (here.place .validate ptr size next) (there.place .decode ptr size next) := by
  refine { alike with placed := .place fits, next := rfl, visits := ?_, counted := ?_, memory := ?_ }
  · change there.visits ++ [.object there.next size] = here.visits ++ [.object here.next size]
    rw [alike.visits, alike.next]
  · refine (handleCount_append ..).trans ?_
    exact alike.counted
  · intro addr above within
    have room := le_addOutOfLine fits.added
    rw [place_next] at above
    rw [place_memory .decode (.inr (by omega))]
    exact alike.memory addr (by omega) within

/-- Walks over an object of a size that keep in step. -/
structure Simulates (cfg : Config) (size : Nat) (walk walk' : Nat → Decoder → Outcome) :
    Prop where
  grows : ∀ pos dec, Grows dec (walk pos dec)
  spanning : Spanning size walk
  spanning' : Spanning size walk'
  agree : ∀ pos here there, Alike here there → pos + size ≤ here.next →
    AgreeOn pos (pos + size) here.memory there.memory →
    Agree cfg (walk pos here) (walk' pos there)

/-- Walks over an object of a size that agree on it. -/
abbrev AgreesOver (cfg : Config) (size : Nat) (walk walk' : Nat → Decoder → Outcome) : Prop :=
  ∀ pos here there, Alike here there → pos + size ≤ here.next →
    AgreeOn pos (pos + size) here.memory there.memory →
    Agree cfg (walk pos here) (walk' pos there)

lemma simulates_go : Simulates cfg size (fun _ dec => .go dec) fun _ dec => .go dec :=
  ⟨fun _ _ => prefix_rfl, spanning_go, spanning_go,
    fun _ _ _ alike _ _ => .go rfl alike⟩

lemma Alike.placed' (alike : Alike here there) : Placed there where
  inside := by
    rw [alike.next, alike.size]
    exact alike.placed.inside
  aligned := by
    rw [alike.next]
    exact alike.placed.aligned

variable {walk walk' : Nat → Decoder → Outcome} {stride : Nat}
  {isEmpty needWalk nullable strict isResource : Bool}

/-- Both pointers are followed, or none. -/
lemma agree_visitPointer (alike : Alike here there) (agree : AgreeOn ptr (ptr + 8) here.memory there.memory)
    (inside : ∀ next, Fits here (validating cfg) pointee ptr size next →
      Agree cfg (walk here.next (here.place .validate ptr size next))
        (walk' here.next (there.place .decode ptr size next))) :
    Agree cfg (here.visitPointer (validating cfg) pointee ptr size walk)
      (there.visitPointer (decoding cfg) pointee ptr size walk') := by
  rcases visitPointer_cases with
    ⟨next, fits, goes⟩ | ⟨unfit, _, fails⟩
  · rcases visitPointer_cases with
      ⟨next', fits', goes'⟩ | ⟨unfit', _⟩
    · cases Option.some.inj (fits.added.symm.trans ((fits_iff alike agree).mp fits').added)
      rw [goes, goes', alike.next]
      exact inside next fits
    · exact absurd ((fits_iff alike agree).mpr fits) (unfit' next)
  · rcases visitPointer_cases with
      ⟨next', fits', _⟩ | ⟨_, _, fails'⟩
    · exact absurd ((fits_iff alike agree).mp fits') (unfit next')
    · rw [fails, fails']
      exact alike.exits

lemma agree_pointer (simulates : Simulates cfg size walk walk') (alike : Alike here there)
    (pointee : PointeeType) (below : ptr + 8 ≤ here.next)
    (agree : AgreeOn ptr (ptr + 8) here.memory there.memory) :
    Agree cfg (here.visitPointer (validating cfg) pointee ptr size walk)
      (there.visitPointer (decoding cfg) pointee ptr size walk') := by
  refine agree_visitPointer alike agree fun next fits => ?_
  have room := le_addOutOfLine fits.added
  have inside := fits.inside
  refine simulates.agree _ _ _ (alike.place fits below) (by rwa [place_next]) ?_
  intro addr above _
  rw [place_memory .decode (.inr (by omega))]
  exact alike.memory addr above (by omega)

/-! ## Handles and unknown envelopes -/

/-- Handles were counted, and the decoder may have written where it has been. -/
lemma Alike.count (alike : Alike here there) (visit : Visit)
    (kept : after'.size = there.size ∧ after'.next = there.next ∧
      after'.numHandles = there.numHandles ∧ after'.handles = there.handles ∧
      after'.visits = there.visits ++ [visit])
    (below : here.index + handles visit ≤ here.numHandles)
    (index : after'.index = there.index + handles visit)
    (unknown : after'.unknown.length ≤ there.index + handles visit)
    (memory : AgreeOn here.next here.size there.memory after'.memory) :
    Alike { here.visit visit with index := (here.index + handles visit) % 2 ^ 32 } after' := by
  obtain ⟨size, next, numHandles, handles, visits⟩ := kept
  have few := alike.few
  rw [Nat.mod_eq_of_lt (by omega)]
  exact
    { placed := ⟨alike.placed.inside, alike.placed.aligned⟩
      size := size.trans alike.size
      next := next.trans alike.next
      index := by rw [index, alike.index]
      visits := by rw [visits, alike.visits]; rfl
      counted := by
        refine (handleCount_append ..).trans ?_
        rw [alike.counted]
        rfl
      numHandles := numHandles.trans alike.numHandles
      length := by rw [handles]; exact alike.length
      few := few
      below := below
      unknown := by rw [index]; exact unknown
      memory := alike.memory.trans memory }

/-- Where the decoder stops, it has come to a visit that the validation has noted. -/
lemma Alike.reaches (alike : Alike here there) (visit : Visit)
    (numHandles : there'.numHandles = there.numHandles) :
    Reaches (.go { here.visit visit with index := total }) there' there.visits visit where
  noted := by
    rw [alike.visits]
    exact prefix_rfl
  within := by
    rw [alike.visits, alike.counted, numHandles, alike.numHandles]
    exact alike.below

lemma agree_handle (alike : Alike here there) (low : pos + 4 ≤ here.next)
    (agree : AgreeOn pos (pos + 4) here.memory there.memory) (attrs : HandleAttributes) :
    Agree cfg (here.visitHandle (validating cfg) pos attrs)
      (there.visitHandle (decoding cfg) pos attrs) := by
  have marker : word there.memory pos 4 = word here.memory pos 4 := word_congr agree.symm
  unfold Decoder.visitHandle
  rw [marker, alike.index, alike.numHandles]
  by_cases absent : word here.memory pos 4 ≠ handlePresent
  · rw [if_pos absent, if_pos absent]
    exact alike.exits
  rw [if_neg absent, if_neg absent]
  by_cases used : here.index = here.numHandles
  · rw [if_pos used, if_pos used]
    exact alike.exits
  rw [if_neg used, if_neg used]
  have below := alike.below
  have length := alike.length
  have unknown := alike.unknown
  have found : there.handles[here.index]? = some (there.handles.getD here.index 0) := by
    rw [getD_eq_getElem?_getD, getElem?_eq_getElem (by omega)]
    rfl
  have stored : ∀ handle, Alike
      { here.visit (.handle attrs here.index) with index := (here.index + 1) % 2 ^ 32 }
      ((there.visit (.handle attrs here.index)).storeHandle pos handle) := by
    intro handle
    refine alike.count (.handle attrs here.index) ⟨rfl, rfl, rfl, rfl, rfl⟩ ?_ rfl
      (Nat.le_succ_of_le unknown) ?_
    · change here.index + 1 ≤ _
      omega
    · intro _ _ _
      exact (store_outside (.inr (by rw [length_littleEndian]; omega))).symm
  simp only [validating, decoding]
  split
  next null =>
    rw [null] at found
    exact .missing (alike.reaches _ rfl) found
  split
  · exact .go rfl (stored _)
  · exact .go rfl (stored _)
  · exact .refused (alike.reaches _ rfl) rfl ‹_›

/-- The handles of an unknown envelope: there are as many left, or the validation
has counted more than there are. -/
lemma agree_unknownHandles (alike : Alike here there) (leave : Bool)
    (noted : written = { there.visit (.unknown envelope) with memory })
    (same : AgreeOn here.next here.size there.memory memory) :
    Agree cfg (.go { here.visit (.unknown envelope) with
        index := (here.index + envelope.numHandles) % 2 ^ 32 })
      (written.unknownHandles leave envelope.numHandles) := by
  have below := alike.below
  have few := alike.few
  have index := alike.index
  have numHandles := alike.numHandles
  have unknown := alike.unknown
  have index' : written.index = there.index := noted ▸ rfl
  have unknown' : written.unknown = there.unknown := noted ▸ rfl
  have numHandles' : written.numHandles = there.numHandles := noted ▸ rfl
  have visits : written.visits = there.visits ++ [.unknown envelope] := noted ▸ rfl
  unfold Decoder.unknownHandles maxMsgHandles
  rw [index', unknown', numHandles']
  by_cases enough : here.index + envelope.numHandles ≤ here.numHandles
  · split
    next none =>
      refine .go rfl (alike.count (.unknown envelope) (noted ▸ ⟨rfl, rfl, rfl, rfl, rfl⟩) enough
        ?_ ?_ (noted ▸ same))
      · rw [index', handles, none, Nat.add_zero]
      · rw [unknown', handles]
        omega
    rw [if_neg (by omega), if_neg (by omega), if_neg (by omega), if_neg (by omega)]
    subst noted
    refine .go rfl (alike.count (.unknown envelope) ?_ enough ?_ ?_ ?_)
    · cases leave <;> exact ⟨rfl, rfl, rfl, rfl, rfl⟩
    · cases leave <;> rfl
    · have taken : (there.incoming envelope.numHandles).length ≤ envelope.numHandles :=
        length_take_le ..
      cases leave with
      | true => exact Nat.le_add_right_of_le unknown
      | false =>
        change (there.unknown ++ there.incoming envelope.numHandles).length ≤ _
        rw [length_append]
        exact Nat.add_le_add unknown taken
    · cases leave <;> exact same
  · have beyond : written.numHandles < handleCount written.visits := by
      rw [visits, handleCount_append, alike.visits, alike.counted]
      change _ < here.index + envelope.numHandles
      omega
    repeat' split
    all_goals first
      | exact .beyond (alike.reaches _ numHandles') visits beyond
      | omega

lemma agree_unknown (alike : Alike here there) (low : pos + 8 ≤ here.next) :
    Agree cfg (here.visitUnknownEnvelope (validating cfg) envelope pos isResource)
      (there.visitUnknownEnvelope (decoding cfg) envelope pos isResource) := by
  unfold Decoder.visitUnknownEnvelope
  rw [show (validating cfg).mode = .validate from rfl, show (decoding cfg).mode = .decode from rfl]
  simp only
  split
  · split
    · exact .abort (alike.reaches _ rfl) rfl
    next converted =>
      obtain ⟨bytes, _, rfl⟩ := convertEnvelope_memory converted
      refine agree_unknownHandles alike isResource rfl ?_
      intro _ _ _
      exact (store_outside (.inr (by omega))).symm
  · exact agree_unknownHandles alike false rfl fun _ _ _ => rfl

/-! ## Walks -/

/-- A check that comes out the same. -/
lemma agree_check (alike : Alike here there) [Decidable wrong] [Decidable wrong'] (same : wrong' ↔ wrong) :
    Agree cfg (if wrong then .exit error here else .go here)
      (if wrong' then .exit error there else .go there) := by
  by_cases bad : wrong
  · rw [if_pos bad, if_pos (same.mpr bad)]
    exact alike.exits
  · rw [if_neg bad, if_neg (mt same.mp bad)]
    exact .go rfl alike

lemma read_congr (subtype : PrimitiveSubtype) (agree : AgreeOn pos (pos + subtype.size) memory memory') :
    subtype.read memory pos = subtype.read memory' pos := by
  unfold PrimitiveSubtype.read
  rw [word_congr agree]

private lemma agree_primitive (alike : Alike here there)
    (agree : AgreeOn pos (pos + subtype.size) here.memory there.memory) :
    Agree cfg (walkPrimitive subtype pos here) (walkPrimitive subtype pos there) := by
  refine agree_check alike (and_congr_right fun isBool => ?_)
  rw [agree pos le_rfl (by rw [isBool]; exact Nat.lt_succ_self _)]

private lemma agree_enum (alike : Alike here there)
    (agree : AgreeOn pos (pos + underlying.size) here.memory there.memory) :
    Agree cfg (walkEnum underlying strict validate pos here)
      (walkEnum underlying strict validate pos there) := by
  refine agree_check alike ?_
  rw [read_congr underlying agree]

private lemma agree_bits (alike : Alike here there)
    (agree : AgreeOn pos (pos + underlying.size) here.memory there.memory) :
    Agree cfg (walkBits underlying strict mask pos here) (walkBits underlying strict mask pos there) := by
  refine agree_check alike ?_
  rw [read_congr underlying agree]

lemma agree_guardDepth (alike : Alike here there)
    (inside : ∀ depth, Agree cfg (body depth here) (body' depth there)) :
    Agree cfg (guardDepth depth body here) (guardDepth depth body' there) := by
  unfold guardDepth
  simp only
  split
  · exact alike.exits
  · exact inside _

lemma spanning_append (first : Spanning size walk) (second : Spanning size' later) :
    Spanning (size + size') fun pos dec =>
      (walk pos dec).andThen (later (pos + size)) := by
  intro pos before after placed below gone
  obtain ⟨middle, walked, gone⟩ := Outcome.andThen_eq_go.mp gone
  rw [← Nat.add_assoc] at below ⊢
  have here := first pos before middle placed (by omega) walked
  have later := here.next
  have there := second (pos + size) middle after here.placed (by omega) gone
  exact here.append there (by omega) (by omega) below

/-- One object and what follows it. -/
lemma Simulates.append (first : Simulates cfg size walk walk')
    (second : Simulates cfg size' later next') : Simulates cfg (size + size')
      (fun pos dec => (walk pos dec).andThen (later (pos + size)))
      fun pos dec => (walk' pos dec).andThen (next' (pos + size)) where
  grows pos dec := (first.grows pos dec).trans (grows_andThen (second.grows _))
  spanning := spanning_append first.spanning second.spanning
  spanning' := spanning_append first.spanning' second.spanning'
  agree pos here there alike below agree := by
    refine (first.agree pos here there alike (by omega)
      (agree.mono le_rfl (by omega))).andThen (second.grows _) ?_
    intro middle middle' gone gone' alike'
    have spans := first.spanning pos here middle alike.placed (by omega) gone
    have spans' := first.spanning' pos there middle' alike.placed'
      (by rw [alike.next]; omega) gone'
    have later := spans.next
    refine second.agree (pos + size) middle middle' alike' (by omega)
      (agreeOn_after alike spans spans' ?_ (.inr le_rfl) (by omega))
    exact agree.mono (by omega) (by omega)

private lemma simulates_each (simulates : Simulates cfg stride walk walk') (rounds : Nat) :
    Simulates cfg (rounds * stride) (walkEach walk stride rounds) (walkEach walk' stride rounds) := by
  induction rounds with
  | zero =>
    exact simulates_go
  | succ rounds ih =>
    rw [Nat.succ_mul, Nat.add_comm]
    exact simulates.append ih

lemma simulates_iterable (simulates : Simulates cfg stride walk walk') (whole : stride ∣ endOffset) :
    Simulates cfg endOffset (walkIterable needWalk walk stride endOffset)
      (walkIterable needWalk walk' stride endOffset) := by
  cases needWalk with
  | false => exact simulates_go
  | true =>
    have each := simulates_each simulates (rounds stride endOffset)
    rwa [rounds_mul whole] at each

lemma agree_struct (alike : Alike here there) (inhabited : isEmpty = true → 0 < size)
    (agree : AgreeOn pos (pos + size) here.memory there.memory)
    (inside : Agree cfg (walk pos here) (walk' pos there)) :
    Agree cfg (walkStruct isEmpty walk pos here) (walkStruct isEmpty walk' pos there) := by
  have same : isEmpty = true ∧ there.memory pos ≠ 0 ↔
      isEmpty = true ∧ here.memory pos ≠ 0 := by
    refine and_congr_right fun empty => ?_
    have positive := inhabited empty
    rw [agree pos le_rfl (by omega)]
  unfold walkStruct
  split <;> rename_i bad
  · rw [if_pos (same.mpr bad)]
    exact alike.exits
  · rw [if_neg (mt same.mp bad)]
    exact inside

private lemma agree_structPointer {walk walk' : (depth pos : Nat) → Decoder → Outcome}
    (simulates : ∀ depth, Simulates cfg size (walk depth) (walk' depth)) :
    AgreesOver cfg 8 (walkStructPointer (validating cfg) size walk depth)
      (walkStructPointer (decoding cfg) size walk' depth) := by
  intro pos _ _ alike below agree
  unfold walkStructPointer
  rw [word_congr agree.symm]
  split
  · exact .go rfl alike
  · exact agree_guardDepth alike fun depth => agree_pointer (simulates depth) alike .other below agree

/-! ## Envelopes -/

lemma agree_leaveInlined (alike : Alike here there) (index : entered'.index = entered.index) :
    Agree cfg (here.leaveInlinedEnvelope envelope entered)
      (there.leaveInlinedEnvelope envelope entered') := by
  refine agree_check alike ?_
  rw [alike.index, index]

lemma agree_leave (alike : Alike here there)
    (index : entered'.index = entered.index) (next : entered'.next = entered.next) :
    Agree cfg (here.leaveEnvelope envelope entered) (there.leaveEnvelope envelope entered') := by
  unfold Decoder.leaveEnvelope
  rw [alike.next, next]
  split
  · exact alike.exits
  · exact agree_leaveInlined alike index

private lemma padding_congr (agree : AgreeOn pos (pos + mask.length) memory memory') :
    zipWith (· &&& ·) (load memory pos mask.length) mask =
      zipWith (· &&& ·) (load memory' pos mask.length) mask := by
  rw [load_congr agree]

/-- Payload types that are walked in step. -/
structure PayloadSimulates (cfg : Config) (payload payload' : Payload) : Prop where
  size : payload'.size = payload.size
  simulates : ∀ depth, Simulates cfg payload.size (payload.walk depth) (payload'.walk depth)

private lemma agree_known (same : PayloadSimulates cfg payload payload') (alike : Alike here there)
    (below : pos + 8 ≤ here.next) (agree : AgreeOn pos (pos + 8) here.memory there.memory) :
    Agree cfg (walkKnownEnvelope (validating cfg) payload depth pos envelope here)
      (walkKnownEnvelope (decoding cfg) payload' depth pos envelope there) := by
  unfold walkKnownEnvelope
  rw [same.size]
  split
  next small =>
    have four : payload.size ≤ 4 := small
    split
    · exact alike.exits
    refine agree_guardDepth alike fun depth => ?_
    have mask : (replicate payload.size (0 : UInt8) ++
        replicate (4 - payload.size) 255).length = 4 := by
      simp only [length_append, length_replicate]
      omega
    refine Agree.andThen (Agree.andThen ?_ (same.simulates depth |>.grows pos) ?_) ?_ ?_
    · refine agree_check alike ?_
      rw [padding_congr (agree.symm.mono le_rfl (by omega))]
    · intro middle middle' gone gone' _
      obtain ⟨_, rfl⟩ := visitInternalPadding_eq_go.mp gone
      obtain ⟨_, rfl⟩ := visitInternalPadding_eq_go.mp gone'
      exact (same.simulates depth).agree pos here there alike (by omega)
        (agree.mono le_rfl (by omega))
    · exact fun dec => (lockstep_validating cfg).leaveInlinedEnvelope ..
    · exact fun middle middle' _ _ alike' => agree_leaveInlined alike' alike.index
  · split
    · exact alike.exits
    refine agree_guardDepth alike fun depth => agree_pointer ?_ alike .envelope below agree
    have inner := same.simulates depth
    refine ⟨?_, ?_, ?_, ?_⟩
    · intro object dec
      exact (inner.grows object dec).trans
        (grows_andThen fun dec => (lockstep_validating cfg).leaveEnvelope ..)
    · intro object before after placed below gone
      obtain ⟨middle, walked, left⟩ := Outcome.andThen_eq_go.mp gone
      obtain ⟨_, _, rfl⟩ := leaveEnvelope_eq_go.mp left
      exact inner.spanning object before middle placed below walked
    · intro object before after placed below gone
      obtain ⟨middle, walked, left⟩ := Outcome.andThen_eq_go.mp gone
      obtain ⟨_, _, rfl⟩ := leaveEnvelope_eq_go.mp left
      exact inner.spanning' object before middle placed below walked
    · intro object before before' alike' below agree
      refine (inner.agree object before before' alike' below agree).andThen ?_ ?_
      · exact fun dec => (lockstep_validating cfg).leaveEnvelope ..
      · exact fun middle middle' _ _ last => agree_leave last alike.index alike.next

lemma agree_unknownEnvelope (alike : Alike here there) (below : pos + 8 ≤ here.next)
    (agree : AgreeOn pos (pos + 8) here.memory there.memory) :
    Agree cfg (walkUnknownEnvelope (validating cfg) isResource depth pos envelope here)
      (walkUnknownEnvelope (decoding cfg) isResource depth pos envelope there) := by
  unfold walkUnknownEnvelope
  split
  · refine agree_guardDepth alike fun depth => Agree.andThen (agree_unknown alike below) ?_ ?_
    · exact fun dec => (lockstep_validating cfg).leaveInlinedEnvelope ..
    · exact fun middle middle' _ _ alike' => agree_leaveInlined alike' alike.index
  · refine agree_guardDepth alike fun depth => agree_visitPointer alike agree fun next fits => ?_
    have room := le_addOutOfLine fits.added
    refine Agree.andThen (agree_unknown (alike.place fits below) ?_) ?_ ?_
    · rw [place_next]
      omega
    · exact fun dec => (lockstep_validating cfg).leaveEnvelope ..
    · exact fun middle middle' _ _ alike' => agree_leave alike' alike.index alike.next

lemma copy_congr (agree : AgreeOn pos (pos + 8) memory memory') :
    EnvelopeCopy.read memory pos = EnvelopeCopy.read memory' pos := by
  unfold EnvelopeCopy.read
  rw [word_congr (agree.mono le_rfl (by omega)),
    word_congr (agree.mono (by omega) (by omega)), word_congr (agree.mono (by omega) (by omega))]

lemma agree_envelope (same : Option.Rel (PayloadSimulates cfg) payload payload') :
    AgreesOver cfg 8 (walkEnvelope (validating cfg) payload isResource depth)
      (walkEnvelope (decoding cfg) payload' isResource depth) := by
  intro _ _ _ alike below agree
  unfold walkEnvelope
  rw [copy_congr agree.symm, word_congr agree.symm]
  simp only
  split
  · exact alike.exits
  split
  · exact agree_leave alike alike.index alike.next
  cases same with
  | none => exact agree_unknownEnvelope alike below agree
  | some same => exact agree_known same alike below agree

/-- The walk that validates a payload only adds to what was counted. -/
private lemma alike_of_simulates (same : PayloadSimulates cfg payload payload') :
    Lockstep.Alike (fun dec outcome _ => Grows dec outcome) payload payload :=
  ⟨rfl, fun depth => (same.simulates depth).grows⟩

private lemma grows_envelope (same : Option.Rel (PayloadSimulates cfg) payload payload') (pos : Nat)
    (dec : Decoder) : Grows dec (walkEnvelope (validating cfg) payload isResource depth pos dec) := by
  have alike : Option.Rel (Lockstep.Alike fun dec outcome _ => Grows dec outcome)
      payload payload := by
    cases same with
    | none => exact .none
    | some same => exact .some (alike_of_simulates same)
  exact (lockstep_validating cfg).envelope alike

lemma simulates_envelope {payload payload' : Option Payload}
    (same : Option.Rel (PayloadSimulates cfg) payload payload') (depth : Nat) :
    Simulates cfg 8 (walkEnvelope (validating cfg) payload isResource depth)
      (walkEnvelope (decoding cfg) payload' isResource depth) where
  grows := grows_envelope same
  spanning := by
    refine spanning_envelope (fun known found => ?_)
    cases same with
    | none => cases found
    | some same =>
      cases found
      exact fun depth => (same.simulates depth).spanning
  spanning' := by
    refine spanning_envelope (fun known found => ?_)
    cases same with
    | none => cases found
    | some same =>
      cases found
      intro depth
      rw [same.size]
      exact (same.simulates depth).spanning'
  agree := agree_envelope same

private lemma simulates_envelopes (count ordinal : Nat)
    (same : RelFields (PayloadSimulates cfg) fields fields') : Simulates cfg (count * 8)
      (walkEnvelopes (validating cfg) isResource depth count ordinal fields)
      (walkEnvelopes (decoding cfg) isResource depth count ordinal fields') := by
  induction count generalizing ordinal fields fields' with
  | zero =>
    exact simulates_go
  | succ count ih =>
    obtain ⟨field, rest⟩ := nextField_rel same
    rw [Nat.succ_mul, Nat.add_comm]
    exact (simulates_envelope field depth).append (ih (ordinal + 1) rest)

lemma agree_table (same : RelFields (PayloadSimulates cfg) fields fields') :
    AgreesOver cfg 16 (walkTable (validating cfg) isResource fields depth)
      (walkTable (decoding cfg) isResource fields' depth) := by
  intro pos here there alike _ agree
  have ptr : AgreeOn (pos + 8) (pos + 8 + 8) here.memory there.memory :=
    agree.mono (by omega) (by omega)
  unfold walkTable
  rw [word_congr ptr.symm, word_congr (agree.symm.mono le_rfl (by omega))]
  simp only
  split
  · split
    · exact alike.exits
    · exact agree_guardDepth alike fun _ => alike.exits
  · split
    · exact alike.exits
    · exact agree_guardDepth alike fun depth => agree_pointer (simulates_envelopes _ 1 same) alike
        .other (by omega) ptr

private lemma agree_xunion (same : List.Forall₂ (Option.Rel (PayloadSimulates cfg)) fields fields') :
    AgreesOver cfg 16 (walkXUnion (validating cfg) nullable strict isResource fields depth)
      (walkXUnion (decoding cfg) nullable strict isResource fields' depth) := by
  intro pos here there alike below agree
  have envelope : AgreeOn (pos + 8) (pos + 8 + 8) here.memory there.memory :=
    agree.mono (by omega) (by omega)
  have found := join_rel same (word here.memory pos 8 - 1)
  unfold walkXUnion
  rw [word_congr envelope.symm, word_congr (agree.symm.mono le_rfl (by omega)),
    copy_congr envelope.symm]
  simp only [isNone_of_rel found]
  split
  · split
    · exact alike.exits
    split
    · exact alike.exits
    · exact .go rfl alike
  · split
    · exact alike.exits
    split
    · exact alike.exits
    · exact agree_envelope found _ _ _ alike below envelope

lemma agree_string : AgreesOver cfg 16 (walkString (validating cfg) nullable maxSize depth)
    (walkString (decoding cfg) nullable maxSize depth) := by
  intro pos here there alike _ agree
  have ptr : AgreeOn (pos + 8) (pos + 8 + 8) here.memory there.memory :=
    agree.mono (by omega) (by omega)
  unfold walkString
  rw [word_congr ptr.symm, word_congr (agree.symm.mono le_rfl (by omega))]
  simp only
  split
  · split
    · exact alike.exits
    split
    · exact agree_guardDepth alike fun _ => alike.exits
    · exact .go rfl alike
  · split
    · exact alike.exits
    split
    · exact alike.exits
    · exact agree_guardDepth alike fun _ => agree_pointer (simulates_go) alike .string (by omega) ptr

private lemma agree_walkHandle : AgreesOver cfg 4 (walkHandle (validating cfg) nullable attrs)
    (walkHandle (decoding cfg) nullable attrs) := by
  intro _ _ _ alike below agree
  unfold walkHandle
  rw [word_congr agree.symm]
  split
  · split
    · exact alike.exits
    · exact .go rfl alike
  · exact agree_handle alike below agree attrs

lemma agree_vector {walk walk' : (depth pos : Nat) → Decoder → Outcome}
    (simulates : ∀ depth, Simulates cfg stride (walk depth) (walk' depth)) :
    AgreesOver cfg 16 (walkVector (validating cfg) nullable maxCount stride needWalk walk depth)
      (walkVector (decoding cfg) nullable maxCount stride needWalk walk' depth) := by
  intro pos here there alike _ agree
  have ptr : AgreeOn (pos + 8) (pos + 8 + 8) here.memory there.memory :=
    agree.mono (by omega) (by omega)
  unfold walkVector
  rw [word_congr ptr.symm, word_congr (agree.symm.mono le_rfl (by omega))]
  simp only
  split
  · split
    · exact alike.exits
    split
    · exact agree_guardDepth alike fun _ => alike.exits
    · exact .go rfl alike
  · split
    · exact alike.exits
    split
    · exact alike.exits
    · exact agree_guardDepth alike fun depth => agree_pointer
        (simulates_iterable (simulates depth) (Nat.dvd_mul_left ..)) alike .vector (by omega) ptr

end

/-! ## Types -/

/-- Walks over the bytes of a type that keep in step do so for what they span. -/
lemma simulates_of_agree {cfg : Config} {ty : CodedType} (formed : ty.WellFormed)
    {depth : Nat} (agree : AgreesOver cfg ty.typeSize (CodedType.walk (validating cfg) ty depth)
      (CodedType.walk (decoding cfg) ty depth)) :
    Simulates cfg ty.typeSize (CodedType.walk (validating cfg) ty depth)
      (CodedType.walk (decoding cfg) ty depth) :=
  ⟨(lockstep_validating cfg).walk ty depth, spanning_type ty formed depth,
    spanning_type ty formed depth, agree⟩

/-- A struct, from the walk over its elements. -/
private lemma simulates_struct (isEmpty : Bool)
    (formed : elements.WellFormed 0 size) (inhabited : isEmpty = true → 0 < size)
    (agree : AgreesOver cfg size (Elements.walk (validating cfg) elements depth)
      (Elements.walk (decoding cfg) elements depth)) : Simulates cfg size
      (walkStruct isEmpty (Elements.walk (validating cfg) elements depth))
      (walkStruct isEmpty (Elements.walk (decoding cfg) elements depth)) :=
  @simulates_of_agree cfg (.struct isEmpty size elements) formed depth
    fun pos here there alike below same =>
      agree_struct alike inhabited same (agree pos here there alike below same)

mutual

lemma simulates_type (cfg : Config) : (ty : CodedType) → ty.WellFormed → ty.Padded →
    (depth : Nat) → Simulates cfg ty.typeSize (CodedType.walk (validating cfg) ty depth)
      (CodedType.walk (decoding cfg) ty depth)
  | .primitive subtype, formed, _, _ =>
    simulates_of_agree formed fun _ _ _ alike _ => agree_primitive alike
  | .enum underlying strict validate, formed, _, _ =>
    simulates_of_agree formed fun _ _ _ alike _ => agree_enum alike
  | .bits underlying strict mask, formed, _, _ =>
    simulates_of_agree formed fun _ _ _ alike _ => agree_bits alike
  | .struct _ size elements, formed, padded, depth =>
    simulates_of_agree formed fun pos here there alike below agree =>
      agree_struct alike padded.1 agree (agree_elements cfg elements 0 size formed padded.2 depth
        pos here there alike below agree)
  | .structPointer isEmpty size elements, formed, padded, depth => by
    have inner := fun depth => simulates_struct isEmpty formed padded.1
      (agree_elements cfg elements 0 size formed padded.2 depth)
    exact simulates_of_agree formed fun _ _ _ => agree_structPointer inner _ _ _
  | .table _ fields, formed, padded, _ => by
    have known := simulates_tableFields cfg fields formed padded
    exact simulates_of_agree formed fun _ _ _ => agree_table known _ _ _
  | .xunion _ _ _ fields, formed, padded, _ => by
    have known := simulates_unionFields cfg fields formed padded
    exact simulates_of_agree formed fun _ _ _ => agree_xunion known _ _ _
  | .array _ _ element, ⟨formed, same, whole⟩, padded, depth => by
    subst same
    exact simulates_iterable (simulates_type cfg element formed padded depth) whole
  | .string _ _, formed, _, _ => simulates_of_agree formed fun _ _ _ => agree_string _ _ _
  | .handle _ _, formed, _, _ =>
    simulates_of_agree formed fun _ _ _ => agree_walkHandle _ _ _
  | .vector _ _ _ element, formed, padded, _ => by
    refine simulates_of_agree formed fun _ _ _ => ?_
    obtain ⟨inner, same⟩ := formed
    subst same
    exact agree_vector (simulates_type cfg element inner padded) _ _ _

lemma agree_elements (cfg : Config) :
    (elements : Elements) → (start stop : Nat) → elements.WellFormed start stop →
    elements.Padded start stop → (depth pos : Nat) → (here there : Decoder) →
    Alike here there → pos + stop ≤ here.next → AgreeOn (pos + start) (pos + stop) here.memory there.memory →
    Agree cfg (Elements.walk (validating cfg) elements depth pos here)
      (Elements.walk (decoding cfg) elements depth pos there)
  | .nil, _, _, _, _, _, _, _, _, alike, _, _ => .go rfl alike
  | .field off ty rest, start, stop, ⟨formed, above, inside, others⟩, ⟨padded, more⟩, depth,
      pos, here, there, alike, below, agree => by
    have simulates := simulates_type cfg ty formed padded depth
    refine (simulates.agree (pos + off) here there alike (by omega)
      (agree.mono (by omega) (by omega))).andThen ?_ ?_
    · exact (lockstep_validating cfg).walkElements rest depth pos
    · intro middle middle' gone gone' alike'
      have spans := simulates.spanning _ here middle alike.placed (by omega) gone
      have spans' := simulates.spanning' _ there middle' alike.placed'
        (by rw [alike.next]; omega) gone'
      have next := spans.next
      refine agree_elements cfg rest _ stop others more depth pos middle middle' alike'
        (by omega) (agreeOn_after alike spans spans' ?_ (.inr (by omega)) (by omega))
      exact agree.mono (by omega) le_rfl
  | .padding padding rest, start, stop, formed, ⟨inside, apart, more⟩, depth, pos, here,
      there, alike, below, agree => by
    have same : Clean there.memory pos padding ↔ Clean here.memory pos padding := by
      refine clean_congr fun index byte selected nonzero => ?_
      have short := (List.getElem?_eq_some_iff.mp selected).1
      have behind := apart index byte selected nonzero
      exact (agree _ (by omega) (by omega)).symm
    refine Agree.andThen (agree_check alike ?_) ?_ ?_
    · rw [← Bool.not_eq_false, ← Bool.not_eq_false]
      exact not_congr same
    · exact (lockstep_validating cfg).walkElements rest depth pos
    · intro middle middle' gone gone' alike'
      obtain ⟨_, rfl⟩ := visitInternalPadding_eq_go.mp gone
      obtain ⟨_, rfl⟩ := visitInternalPadding_eq_go.mp gone'
      exact agree_elements cfg rest start stop formed more depth pos here there alike'
        below agree

lemma simulates_tableFields (cfg : Config) : (fields : TableFields) → fields.WellFormed →
    fields.Padded → RelFields (PayloadSimulates cfg) (TableFields.payloads (validating cfg) fields)
      (TableFields.payloads (decoding cfg) fields)
  | .nil, _, _ => .nil
  | .field _ ty rest, ⟨formed, others⟩, ⟨padded, more⟩ =>
    .cons ⟨rfl, rfl, simulates_type cfg ty formed padded⟩
      (simulates_tableFields cfg rest others more)

lemma simulates_unionFields (cfg : Config) : (fields : UnionFields) → fields.WellFormed →
    fields.Padded → List.Forall₂ (Option.Rel (PayloadSimulates cfg))
      (UnionFields.payloads (validating cfg) fields) (UnionFields.payloads (decoding cfg) fields)
  | .nil, _, _ => .nil
  | .reserved rest, others, more => .cons .none (simulates_unionFields cfg rest others more)
  | .field ty rest, ⟨formed, others⟩, ⟨padded, more⟩ =>
    .cons (.some ⟨rfl, simulates_type cfg ty formed padded⟩)
      (simulates_unionFields cfg rest others more)

end

/-! ## Envelopes that are not converted -/

/-- The last visit is of an unknown envelope with an object that is not within 16 bits. -/
def Far (visits : List Visit) : Prop :=
  ∃ earlier pos envelope,
    visits = earlier ++ [.object pos envelope.numBytes] ++ [.unknown envelope] ∧
      envelope.flags % 2 = 0 ∧ (pos > 2 ^ 16 - 1 ∨ envelope.numBytes > 2 ^ 16 - 1)

/-- Every unknown envelope could be converted. -/
def Near (cfg : Config) (visits : List Visit) : Prop :=
  cfg.hlcpp = true → ∀ earlier, earlier <+: visits → ¬Far earlier

structure Steady (cfg : Config) (size : Nat) (dec : Decoder) : Prop where
  whole : dec.size = size
  inside : dec.next ≤ size
  address : dec.base + size < 2 ^ 64
  near : Near cfg dec.visits

/-- An assertion fails only where an envelope is far. -/
def Converts (cfg : Config) (size : Nat) : Outcome → Prop
  | .go dec => Steady cfg size dec
  | .exit _ dec => Near cfg dec.visits
  | .abort dec => cfg.hlcpp = true ∧ Far dec.visits ∧ 2 ^ 16 ≤ size

section

variable {cfg : Config} {dec : Decoder}

lemma Near.snoc (near : Near cfg visits)
    (last : cfg.hlcpp = true → ¬Far (visits ++ [visit])) : Near cfg (visits ++ [visit]) := by
  intro hlcpp earlier before
  rcases prefix_concat_iff.mp before with rfl | before
  · exact last hlcpp
  · exact near hlcpp earlier before

lemma far_last (far : Far (visits ++ [visit])) : ∃ pos envelope,
    visit = .unknown envelope ∧ visits.getLast? = some (.object pos envelope.numBytes) ∧
      envelope.flags % 2 = 0 ∧ (pos > 2 ^ 16 - 1 ∨ envelope.numBytes > 2 ^ 16 - 1) := by
  obtain ⟨earlier, pos, envelope, same, far⟩ := far
  obtain ⟨rfl, last⟩ := append_inj' same rfl
  exact ⟨pos, envelope, (cons.inj last).1, getLast?_concat, far⟩

lemma Steady.unknownHandles (steady : Steady cfg size dec) (leave : Bool) (count : Nat) :
    Converts cfg size (dec.unknownHandles leave count) := by
  unfold Decoder.unknownHandles
  repeat' split
  all_goals first
    | exact steady
    | exact steady.near
    | (cases leave <;> exact ⟨steady.whole, steady.inside, steady.address, steady.near⟩)

/-- The pointer that was written is the one into the message. -/
private lemma pointer_placed (addr : dec.base + dec.next < 2 ^ 64) :
    word (dec.place .decode ptr size later).memory ptr 8 - dec.base = dec.next := by
  have stored : load (dec.place .decode ptr size later).memory ptr 8 =
      littleEndian 8 (dec.base + dec.next) := load_store_of_length (length_littleEndian ..)
  rw [word_of_load addr stored, Nat.add_sub_cancel_left]

/-- An envelope can be converted exactly if it is not far. -/
lemma convertEnvelope_iff (steady : Steady cfg size dec)
    (entered : Entered (decoding cfg) dec envelope pos) :
    ((dec.visit (.unknown envelope)).convertEnvelope envelope pos).isNone ↔
      Far (dec.visits ++ [.unknown envelope]) := by
  unfold Decoder.convertEnvelope
  dsimp only
  split
  next odd =>
    refine iff_of_false nofun fun far => ?_
    obtain ⟨_, _, same, -, even, -⟩ := far_last far
    cases same
    exact odd even
  next even =>
    rcases entered with inlined | ⟨entered, next, fits, rfl⟩
    · exact absurd (by rw [inlined]; decide) even
    have room := le_addOutOfLine fits.added
    have inside : next ≤ size := steady.inside
    have addr : entered.base + size < 2 ^ 64 := steady.address
    have pointed : word (entered.place .decode pos envelope.numBytes next).memory pos 8 -
      entered.base = entered.next := pointer_placed (by omega)
    have shown (written : Decoder) : ((if word (entered.place .decode pos envelope.numBytes
        next).memory pos 8 - entered.base > 2 ^ 16 - 1 ∨ envelope.numBytes > 2 ^ 16 - 1 then none
        else some written) : Option Decoder).isNone ↔
          entered.next > 2 ^ 16 - 1 ∨ envelope.numBytes > 2 ^ 16 - 1 := by
      rw [pointed]
      split
      next far => exact iff_of_true rfl far
      next near => exact iff_of_false nofun near
    refine (shown _).trans ⟨fun far => ?_, fun far => ?_⟩
    · exact ⟨entered.visits, entered.next, envelope, rfl, not_not.mp even, far⟩
    · obtain ⟨_, _, same, last, -, far⟩ := far_last far
      cases same
      cases Option.some.inj (last.symm.trans getLast?_concat)
      exact far

private lemma lockstep_converts (cfg : Config) (size : Nat) : Lockstep (decoding cfg) (decoding cfg)
    fun dec outcome _ => Steady cfg size dec → Converts cfg size outcome where
  mode := rfl
  utf8 := rfl
  go _ := id
  exit _ _ := Steady.near
  andThen {_ left _ _ _} first more steady := by
    cases left with
    | go middle => exact more middle (first steady)
    | exit | abort => exact first steady
  place fits steady := by
    refine ⟨steady.whole, steady.whole ▸ fits.inside, steady.address, steady.near.snoc fun _ far => ?_⟩
    obtain ⟨_, _, same, -⟩ := far_last far
    cases same
  handle dec pos attrs steady := by
    have visited (index) : Near cfg (dec.visits ++ [.handle attrs index]) :=
      steady.near.snoc fun _ far => by
        obtain ⟨_, _, same, -⟩ := far_last far
        cases same
    unfold Decoder.visitHandle
    simp only
    repeat' split
    all_goals first
      | exact steady.near
      | exact ⟨steady.whole, steady.inside, steady.address, visited _⟩
      | exact visited _
  unknown dec envelope pos isResource entered steady := by
    have converts := convertEnvelope_iff steady entered
    unfold Decoder.visitUnknownEnvelope
    by_cases hlcpp : cfg.hlcpp = true
    · simp only [decoding, hlcpp, if_true]
      cases converted : (dec.visit (.unknown envelope)).convertEnvelope envelope pos with
      | none =>
        rw [converted] at converts
        have far := converts.mp rfl
        refine ⟨hlcpp, far, ?_⟩
        obtain ⟨_, _, same, last, even, far⟩ := far_last far
        cases same
        rcases entered with inlined | ⟨entered, next, fits, rfl⟩
        · rw [inlined] at even
          cases even
        cases Option.some.inj (last.symm.trans getLast?_concat)
        have room := le_addOutOfLine fits.added
        have inside : next ≤ size := steady.inside
        omega
      | some after =>
        rw [converted] at converts
        obtain ⟨bytes, _, rfl⟩ := convertEnvelope_memory converted
        have written : Steady cfg size ((dec.visit (.unknown envelope)).assign .decode pos bytes) :=
          ⟨steady.whole, steady.inside, steady.address, steady.near.snoc fun _ far => nomatch converts.mpr far⟩
        exact written.unknownHandles ..
    · simp only [decoding, hlcpp]
      have visited : Steady cfg size (dec.visit (.unknown envelope)) :=
        ⟨steady.whole, steady.inside, steady.address, fun decodes => absurd decodes hlcpp⟩
      exact visited.unknownHandles ..

end

/-! ## Messages -/

/-- `ZX_OK`. -/
def ok : Outcome → Bool
  | .go _ => true
  | .exit _ _ => false
  | .abort _ => false

section

variable {cfg : Config} {ty : CodedType} {msg : Message} {primary next : Nat}
  {start here : Decoder} {validated : Outcome}

/-- Where `fidl_validate_impl` starts. -/
def validatingFrom (msg : Message) (next : Nat) : Decoder :=
  { msg.decoder next with handles := [], numHandles := msg.handles.length, current := [] }

private lemma alike_start (sized : primaryObjectSize ty msg.size = .ok (primary, next))
    (few : msg.handles.length ≤ 64) : Alike (validatingFrom msg next) (msg.decoder next) where
  placed := (placed_start sized rfl rfl).1
  size := rfl
  next := rfl
  index := rfl
  visits := rfl
  counted := rfl
  numHandles := rfl
  length := rfl
  few := few
  below := Nat.zero_le _
  unknown := Nat.zero_le _
  memory _ _ _ := rfl

private lemma converts_message (sized : primaryObjectSize ty msg.size = .ok (primary, next))
    (addr : msg.base + msg.size < 2 ^ 64) :
    Converts cfg msg.size (CodedType.walk (decoding cfg) ty 0 0 (msg.decoder next)) :=
  (lockstep_converts cfg msg.size).walk ty 0 0 _
    ⟨rfl, (@placed_start ty msg (msg.decoder next) _ _ sized rfl rfl).1.inside, addr,
      fun _ _ before => by
        rw [prefix_nil.mp before]
        rintro ⟨_, _, _, wrong, -⟩
        simp at wrong⟩

/-- The checks that `fidl_validate_impl` ends with. -/
def consumed (dec : Decoder) : Outcome :=
  if dec.next ≠ dec.size then .exit .bytesLeft dec
  else if dec.index ≠ dec.numHandles then .exit .handlesLeft dec
  else .go dec

lemma consumed_visits : (validated.andThen consumed).decoder.visits = validated.decoder.visits := by
  cases validated with
  | exit | abort => rfl
  | go =>
    unfold Outcome.andThen consumed
    dsimp only
    repeat' split
    all_goals rfl

/-- The walks over a message, when it is validated and when it is decoded. -/
structure Walks (cfg : Config) (ty : CodedType) (msg : Message) (primary next : Nat)
    (validated decoded : Outcome) : Prop where
  sized : primaryObjectSize ty msg.size = .ok (primary, next)
  validating : CodedType.walk (validating cfg) ty 0 0 (validatingFrom msg next) = validated
  validates : fidlValidateImpl cfg ty msg msg.handles.length = validated.andThen consumed
  decodes : fidlDecodeImpl cfg ty msg = finish decoded
  agree : Agree cfg validated decoded
  converts : Converts cfg msg.size decoded
  ends : Ends (decoding cfg) decoded
  array : decoded.decoder.handles = msg.handles
  count : decoded.decoder.numHandles = msg.handles.length

/-- Both calls report an error before the walk, or they walk alike. -/
lemma walks_cases (formed : ty.WellFormed) (padded : ty.Padded) (few : msg.handles.length ≤ 64)
    (addr : msg.base + msg.size < 2 ^ 64) :
    (∃ error, fidlDecodeImpl cfg ty msg = fail error (msg.decoder 0) ∧
      fidlValidateImpl cfg ty msg msg.handles.length = .exit error (validatingFrom msg 0)) ∨
    ∃ primary next validated decoded, Walks cfg ty msg primary next validated decoded := by
  rcases entry_cases msg msg.handles.length with
    ⟨error, failed⟩ | ⟨primary, next, ⟨-, sized, -⟩, entered⟩
  · exact .inl ⟨error, failed cfg⟩
  obtain ⟨decodes, validates⟩ := entered cfg
  obtain ⟨array, count⟩ := (@lockstep_handles (decoding cfg)).walk ty 0 0 (msg.decoder next)
  exact .inr ⟨primary, next, _, _,
    { sized, validating := rfl, validates, decodes, array, count
      agree := (simulates_type cfg ty formed padded 0).agree 0 _ _ (alike_start sized few)
        (@placed_start ty msg (validatingFrom msg next) _ _ sized rfl rfl).2 fun _ _ _ => rfl
      converts := converts_message sized addr
      ends := (inv_start (decoding cfg) msg next).walk rfl ty 0 0 }⟩

/-- A message has too few bytes for more handles. -/
lemma handleCount_le (formed : ty.WellFormed)
    (sized : primaryObjectSize ty msg.size = .ok (primary, next))
    (size : start.size = msg.size) (first : start.next = next) (none : start.visits = [])
    (walked : CodedType.walk (validating cfg) ty 0 0 start = .go here) :
    handleCount here.visits ≤ 8192 * msg.size := by
  obtain ⟨placed, below⟩ := placed_start sized size first
  have spans := spanning_type ty formed 0 0 _ here placed below walked
  obtain ⟨new, visited⟩ := spans.visited
  have bound := visited.bound
  have visits : here.visits = new := by rw [visited.visits, none, nil_append]
  have inside := spans.placed.inside
  have later := spans.next
  have kept := spans.size
  rw [visits]
  omega

/-- A validation that has counted more handles than there are does not end well: the
count cannot have wrapped in a message of this size. -/
private lemma index_of_beyond (formed : ty.WellFormed)
    (sized : primaryObjectSize ty msg.size = .ok (primary, next))
    (small : msg.size ≤ 65520) (few : msg.handles.length ≤ 64)
    (walked : CodedType.walk (validating cfg) ty 0 0 (validatingFrom msg next) = .go here)
    (beyond : msg.handles.length < handleCount here.visits) : here.index ≠ here.numHandles := by
  have bound := handleCount_le formed sized rfl rfl rfl walked
  obtain ⟨kept, new, visits, index⟩ := (lockstep_counts cfg).walk ty 0 0 _ here walked
  have kept : here.numHandles = msg.handles.length := kept
  have visits : here.visits = new := visits
  have index : here.index % 2 ^ 32 = (0 + handleCount new) % 2 ^ 32 := index
  rw [visits] at beyond bound
  omega

/-- A message is validated exactly when it would be decoded, if no handle in it is
refused. -/
theorem validate_iff_decode (wellFormed : ty.WellFormed) (padded : ty.Padded)
    (small : msg.size ≤ 65520) (few : msg.handles.length ≤ 64)
    (address : msg.base + msg.size < 2 ^ 64) (live : ∀ handle ∈ msg.handles, handle ≠ 0)
    (passes : ∀ attrs index,
      .handle attrs index ∈ (fidlDecodeImpl cfg ty msg).decoder.visits →
        (cfg.processHandle attrs index).Passes) :
    ok (fidlValidateImpl cfg ty msg msg.handles.length) = true ↔
      ok (fidlDecodeImpl cfg ty msg) = true := by
  rcases walks_cases wellFormed padded few address with
    ⟨_, decodes, validates⟩ | ⟨_, next, validated, decoded, walks⟩
  · rw [decodes, validates]
    exact Iff.rfl
  rw [walks.decodes] at passes ⊢
  rw [walks.validates]
  have count := walks.count
  have array := walks.array
  have converts := walks.converts
  cases walks.agree with
  | go walked alike =>
    rw [walked]
    simp only [Outcome.andThen, consumed, finish]
    rw [alike.next, alike.size, alike.index, alike.numHandles]
    split
    · exact Iff.rfl
    split
    · exact Iff.rfl
    · exact Iff.rfl
  | exit walked =>
    rw [walked]
    exact Iff.rfl
  | beyond reaches visits more =>
    refine iff_of_false ?_ (Bool.eq_false_iff.mp rfl)
    cases walked : validated with
    | exit | abort => exact Bool.eq_false_iff.mp rfl
    | go here =>
      have noted := reaches.noted
      rw [walked, ← visits] at noted
      have left := index_of_beyond wellFormed walks.sized small few (walks.validating.trans walked)
        (count.symm.trans_lt (Nat.lt_of_lt_of_le more (handleCount_mono noted)))
      simp only [Outcome.andThen, consumed]
      split <;> exact Bool.eq_false_iff.mp rfl
  | missing _ null => exact absurd rfl (live 0 (mem_of_getElem? (array ▸ null)))
  | refused _ visits refused =>
    refine absurd refused (passes _ _ ?_ _)
    rw [finish_visits]
    exact visits ▸ mem_concat_self
  | abort =>
    obtain ⟨-, -, large⟩ := converts
    omega

/-- Any handle of any kind passes. -/
def lenient : Config where
  mode := .decode
  hlcpp := true
  processHandle _ _ := .unchanged
  isValidUtf8 _ := true

def anyObject : HandleAttributes := ⟨0, 0⟩

/-- A struct with a handle and four bytes of padding. -/
def handleStruct : CodedType :=
  .struct false 8 (.field 0 (.handle false anyObject) (.padding ⟨4, [255, 255, 255, 255]⟩ .nil))

def handleMessage : Message where
  base := 8
  size := 8
  memory := ofBytes [255, 255, 255, 255]
  handles := [7]

theorem validate_iff_decode_handle :
    handleStruct.WellFormed ∧ handleStruct.Padded ∧
      ok (fidlDecodeImpl lenient handleStruct handleMessage) = true ∧
      ok (fidlValidateImpl lenient handleStruct handleMessage 1) = true := by
  have wellFormed : handleStruct.WellFormed := ⟨trivial, by omega, by decide, trivial⟩
  have padded : handleStruct.Padded := by
    refine ⟨nofun, trivial, by decide, fun index byte _ _ => ?_, trivial⟩
    exact Nat.le_add_right 4 index
  have decoded : ok (fidlDecodeImpl lenient handleStruct handleMessage) = true := by decide
  refine ⟨wellFormed, padded, decoded, ?_⟩
  refine (validate_iff_decode wellFormed padded (by decide) (by decide) (by decide) ?_ ?_).mpr decoded
  · simp [handleMessage]
  · exact fun _ _ _ => nofun

/-- A table that has two handles in one place. -/
def overlapping : CodedType :=
  .struct false 8 (.field 0 (.handle false anyObject) (.field 0 (.handle false anyObject) .nil))

/-- The first handle overwrites the marker of the second. -/
theorem validate_overlapping :
    let msg : Message := { handleMessage with handles := [7, 8] }
    ok (fidlValidateImpl lenient overlapping msg 2) = true ∧
      ok (fidlDecodeImpl lenient overlapping msg) = false := by
  decide

end

end FuchsiaSdk.CodedValidate
