import FuchsiaSdk.CodedValidate

/-! What decoding comes to in a message, as far as validation tells, which goes through the coding
table and the bytes and knows of the handles only how many there are. On that rest the answers to
two questions about `fidl_decode_impl`: whether it disposes of every handle once, and whether it
returns in HLCPP mode, where it asserts that unknown envelopes lie in the first 64 KiB. -/
namespace FuchsiaSdk.CodedReach
open Memory WireFormat CodingTable CodedDecoder CodedExtent CodedValidate
open CodedDecodeHandles (Checks Conserves conserves_iff_checks finish_visits ofObjectType
  ofObjectType_unreplaced)
open CodedTiling (anyHandle)
open List hiding after

/-- Validation makes the visit, and before it there are handles enough. -/
structure Reached (cfg : Config) (ty : CodedType) (msg : Message) (earlier : List Visit)
    (visit : Visit) : Prop where
  noted : earlier ++ [visit] <+: (fidlValidateImpl cfg ty msg msg.handles.length).decoder.visits
  enough : handleCount earlier ≤ msg.handles.length

section

variable {cfg : Config} {ty : CodedType} {msg : Message} {validated decoded : Outcome}
  {primary next : Nat} {earlier visits : List Visit} {visit : Visit}

lemma reached_iff (walks : Walks cfg ty msg primary next validated decoded) :
    Reached cfg ty msg earlier visit ↔ earlier ++ [visit] <+: validated.decoder.visits ∧
      handleCount earlier ≤ msg.handles.length := by
  refine ⟨fun reached => ⟨?_, reached.enough⟩, fun reached => ⟨?_, reached.2⟩⟩
  · rw [← consumed_visits, ← walks.validates]
    exact reached.noted
  · rw [walks.validates, consumed_visits]
    exact reached.1

lemma reaches_reached (walks : Walks cfg ty msg primary next validated decoded)
    (reaches : Reaches validated decoded.decoder earlier visit) :
    Reached cfg ty msg earlier visit :=
  (reached_iff walks).mpr ⟨reaches.noted, walks.count ▸ reaches.within⟩

/-- Of two things that validation comes to, one is before the other. -/
lemma prefix_or_before (first : earlier ++ [visit] <+: whole) (second : visits <+: whole) :
    earlier ++ [visit] <+: visits ∨ visits <+: earlier := by
  rcases prefix_or_prefix_of_prefix first second with before | before
  · exact .inl before
  rcases prefix_concat_iff.mp before with rfl | before
  · exact .inl prefix_rfl
  · exact .inr before

/-! ## Handles -/

/-- The handle fields that validation comes to and that there are handles for. -/
def Fields (cfg : Config) (ty : CodedType) (msg : Message) (condition : HandleCheck → Prop) :
    Prop :=
  ∀ earlier attrs i, Reached cfg ty msg earlier (.handle attrs i) →
    condition (cfg.processHandle attrs i)

/-- No handle field needs a change, or the message is valid with its handles and no handle is
refused. -/
def Sound (cfg : Config) (ty : CodedType) (msg : Message) : Prop :=
  Fields cfg ty msg (· = .unchanged) ∨
    (∃ dec, fidlValidateImpl cfg ty msg msg.handles.length = .go dec ∧
      handleCount dec.visits = msg.handles.length) ∧
    Fields cfg ty msg HandleCheck.Passes

/-- Decoding has checked the handle fields that are reached. -/
lemma checks_iff_fields (walks : Walks cfg ty msg primary next validated decoded)
    (whole : decoded.decoder.visits <+: validated.decoder.visits)
    (known : ∀ earlier attrs i, earlier ++ [.handle attrs i] <+: decoded.decoder.visits →
      handleCount earlier ≤ msg.handles.length)
    (all : validated.decoder.visits = decoded.decoder.visits ∨
      msg.handles.length < handleCount decoded.decoder.visits)
    (condition : HandleCheck → Prop) :
    Checks cfg decoded.decoder condition ↔ Fields cfg ty msg condition := by
  constructor
  · intro checks earlier attrs i reached
    obtain ⟨noted, enough⟩ := (reached_iff walks).mp reached
    refine checks attrs i ?_
    rcases all with same | more
    · exact (same ▸ noted).subset mem_concat_self
    rcases prefix_or_before noted whole with before | before
    · exact before.subset mem_concat_self
    · have fewer := handleCount_mono before
      omega
  · intro fields attrs i visited
    obtain ⟨earlier, later, split⟩ := append_of_mem visited
    have before : earlier ++ [.handle attrs i] <+: decoded.decoder.visits :=
      ⟨later, by rw [split, append_assoc]; rfl⟩
    exact fields earlier attrs i
      ((reached_iff walks).mpr ⟨before.trans whole, known _ _ _ before⟩)

/-- Where the two walks end together. -/
lemma Alike.checks (walks : Walks cfg ty msg primary next validated decoded)
    (alike : Alike validated.decoder decoded.decoder) (condition : HandleCheck → Prop) :
    Checks cfg decoded.decoder condition ↔ Fields cfg ty msg condition := by
  refine checks_iff_fields walks (alike.visits ▸ prefix_rfl) (fun earlier attrs i before => ?_)
    (.inl alike.visits.symm) condition
  have fewer := handleCount_mono ((prefix_append ..).trans before)
  have below := alike.below
  rw [alike.visits, alike.counted] at fewer
  rw [← walks.count, alike.numHandles]
  omega

/-- Where decoding ends at an envelope with more handles than are left, the handle fields that
validation may still come to are not reached. -/
lemma Reaches.checks (walks : Walks cfg ty msg primary next validated (.exit error there))
    (reaches : Reaches validated there earlier (.unknown envelope))
    (visits : there.visits = earlier ++ [.unknown envelope])
    (more : msg.handles.length < handleCount there.visits) (condition : HandleCheck → Prop) :
    Checks cfg (Outcome.exit error there).decoder condition ↔
      Fields cfg ty msg condition := by
  refine checks_iff_fields walks ?_ (fun before attrs i noted => ?_) (.inr more) condition
  · exact visits ▸ reaches.noted
  have noted : before ++ [.handle attrs i] <+: there.visits := noted
  rw [visits] at noted
  rcases prefix_concat_iff.mp noted with same | noted
  · cases (append_inj' same rfl).2
  · have fewer := handleCount_mono ((prefix_append ..).trans noted)
    exact fewer.trans (walks.count ▸ reaches.within)

/-- `fidl_decode_impl` disposes of every incoming handle once exactly if no handle field that is
reached needs a change, or none is refused and the message is valid. -/
theorem fidlDecodeImpl_conserves_iff (wellFormed : ty.WellFormed) (padded : ty.Padded)
    (few : msg.handles.length ≤ 64) (live : ∀ handle ∈ msg.handles, handle ≠ 0)
    (fresh : ∀ attrs i successor,
      cfg.processHandle attrs i = .replaced successor → successor ≠ 0 ∧ successor ∉ msg.handles)
    (addr : msg.base + msg.size < 2 ^ 64)
    (returned : ∀ dec, fidlDecodeImpl cfg ty msg ≠ .abort dec) :
    Conserves ty (fidlDecodeImpl cfg ty msg) ↔ Sound cfg ty msg := by
  rw [conserves_iff_checks wellFormed live fresh addr returned]
  unfold Sound
  rcases walks_cases wellFormed padded few addr with
    ⟨_, decodes, validates⟩ | ⟨_, next, validated, decoded, walks⟩
  · rw [decodes]
    refine iff_of_true (.inl fun _ _ mem => absurd mem not_mem_nil) (.inl fun _ _ _ reached => ?_)
    have noted := reached.noted
    rw [validates] at noted
    cases noted.subset mem_concat_self
  have checked (condition) : Checks cfg (fidlDecodeImpl cfg ty msg).decoder condition ↔
      Checks cfg decoded.decoder condition := by
    unfold Checks
    rw [walks.decodes, finish_visits]
  rw [checked, checked, walks.decodes, walks.validates]
  have array := walks.array
  have count := walks.count
  cases walks.agree with
  | go walked alike =>
    subst walked
    rw [Alike.checks walks alike, Alike.checks walks alike]
    refine or_congr Iff.rfl (and_congr_left fun _ => ?_)
    simp only [finish, Outcome.andThen, consumed]
    rw [alike.next, alike.size, alike.index, alike.numHandles]
    split
    · exact iff_of_false (by rintro ⟨_, ⟨⟩⟩) (by rintro ⟨_, ⟨⟩, _⟩)
    split
    · exact iff_of_false (by rintro ⟨_, ⟨⟩⟩) (by rintro ⟨_, ⟨⟩, _⟩)
    next left =>
      refine iff_of_true ⟨_, rfl⟩ ⟨_, rfl, ?_⟩
      rw [alike.counted, not_not.mp left, ← alike.numHandles]
      exact count
  | exit walked alike =>
    subst walked
    rw [Alike.checks walks alike, Alike.checks walks alike]
    exact or_congr Iff.rfl (and_congr_left fun _ =>
      iff_of_false (by rintro ⟨_, ⟨⟩⟩) (by rintro ⟨_, ⟨⟩, _⟩))
  | beyond reaches visits more =>
    have more := count ▸ more
    rw [Reaches.checks walks reaches visits more, Reaches.checks walks reaches visits more]
    refine or_congr Iff.rfl (and_congr_left fun _ =>
      iff_of_false (by rintro ⟨_, ⟨⟩⟩) ?_)
    rintro ⟨dec, valid, all⟩
    have same := @consumed_visits validated
    rw [valid] at same
    have fewer := handleCount_mono (visits ▸ reaches.noted)
    rw [← same] at fewer
    exact absurd (fewer.trans_eq all) (Nat.not_le.mpr more)
  | missing _ null => exact absurd rfl (live 0 (mem_of_getElem? (array ▸ null)))
  | refused reaches visits refused =>
    have reached := reaches_reached walks reaches
    have visited := visits ▸ mem_concat_self
    constructor
    · rintro (unchanged | ⟨-, passes⟩)
      · cases refused.symm.trans (unchanged _ _ visited)
      · exact absurd refused (passes _ _ visited _)
    · rintro (unchanged | ⟨-, passes⟩)
      · cases refused.symm.trans (unchanged _ _ _ reached)
      · exact absurd refused (passes _ _ _ reached _)
  | abort => exact absurd walks.decodes (returned _)

end

/-- A message with one handle. -/
def oneHandle : Message where
  base := 4096
  size := 8
  memory := ofBytes [255, 255, 255, 255, 0, 0, 0, 0]
  handles := [7]

/-- A struct with one handle field, of object type 1. -/
def handleStruct : CodedType :=
  .struct false 4 (.field 0 (.handle false ⟨1, rightSameRights⟩) .nil)

private lemma handleStruct_wellFormed : handleStruct.WellFormed :=
  ⟨trivial, le_rfl, le_rfl, trivial⟩

/-- A handle of the object type is kept. -/
theorem fidlDecodeImpl_conserves_one :
    Conserves handleStruct (fidlDecodeImpl (ofObjectType 1) handleStruct oneHandle) := by
  refine (fidlDecodeImpl_conserves_iff handleStruct_wellFormed ⟨nofun, trivial, trivial⟩
    (by decide) (by simp [oneHandle]) (fun _ _ _ replaced => absurd replaced
      ofObjectType_unreplaced) (by decide) (by nofun)).mpr (.inl ?_)
  intro earlier attrs i reached
  have noted : Visit.handle attrs i ∈ [Visit.handle ⟨1, rightSameRights⟩ 0] :=
    reached.noted.subset mem_concat_self
  cases mem_singleton.mp noted
  decide

/-- A handle of another object type is closed by the check, and once more with the
handle array. -/
theorem fidlDecodeImpl_closes_twice :
    let outcome := fidlDecodeImpl (ofObjectType 2) handleStruct oneHandle
    outcome.decoder.closed = [7, 7] ∧ ¬ Conserves handleStruct outcome := by
  intro outcome
  have closed : outcome.decoder.closed = [7, 7] := by decide
  refine ⟨closed, fun perm => ?_⟩
  have length : outcome.decoder.current.length = outcome.decoder.closed.length :=
    List.Perm.length_eq perm
  cases length

/-! ## Assertions -/

section

variable {cfg : Config} {ty : CodedType} {msg : Message} {validated decoded : Outcome}
  {primary next : Nat}

/-- An unknown envelope that decoding comes to, behind handles that are valid and pass. -/
def Entered (cfg : Config) (ty : CodedType) (msg : Message) (earlier : List Visit)
    (envelope : EnvelopeCopy) : Prop :=
  Reached cfg ty msg earlier (.unknown envelope) ∧
    ∀ attrs i, .handle attrs i ∈ earlier →
      msg.handles.getD i 0 ≠ 0 ∧ (cfg.processHandle attrs i).Passes

/-- The walk fails an assertion exactly at an envelope that is far. -/
lemma walk_aborts_iff (hlcpp : cfg.hlcpp = true)
    (walks : Walks cfg ty msg primary next validated decoded) :
    (∃ dec, decoded = .abort dec) ↔ ∃ earlier envelope,
      Entered cfg ty msg earlier envelope ∧ Far (earlier ++ [.unknown envelope]) := by
  have array := walks.array
  have count := walks.count
  have converts := walks.converts
  constructor
  · rintro ⟨there, rfl⟩
    have inv := walks.ends
    cases walks.agree with
    | abort reaches visits =>
      refine ⟨_, _, ⟨reaches_reached walks reaches, fun attrs i mem => ?_⟩, visits ▸ converts.2.1⟩
      have visited : .handle attrs i ∈ there.visits := visits ▸ mem_append_left _ mem
      exact ⟨array ▸ (inv.before attrs i visited).2, inv.passed attrs i visited⟩
  rintro ⟨earlier, envelope, ⟨reached, passed⟩, far⟩
  obtain ⟨noted, enough⟩ := (reached_iff walks).mp reached
  cases walks.agree with
  | go walked alike =>
    subst walked
    exact absurd far (converts.near hlcpp _ (alike.visits ▸ noted))
  | exit walked alike =>
    subst walked
    exact absurd far (converts hlcpp _ (alike.visits ▸ noted))
  | beyond reaches visits more =>
    rcases prefix_or_before noted (visits ▸ reaches.noted) with before | before
    · exact absurd far (converts hlcpp _ before)
    · exact absurd (count ▸ more) (Nat.not_lt.mpr ((handleCount_mono before).trans enough))
  | missing reaches null =>
    rcases prefix_or_before noted reaches.noted with before | before
    · rcases prefix_concat_iff.mp before with same | before
      · cases (append_inj' same rfl).2
      · exact absurd far (converts hlcpp _ before)
    · refine absurd ?_ (passed _ _ (before.subset mem_concat_self)).1
      rw [← array, getD_eq_getElem?_getD]
      exact congrArg (Option.getD · 0) null
  | refused reaches visits refused =>
    rcases prefix_or_before noted (visits ▸ reaches.noted) with before | before
    · exact absurd far (converts hlcpp _ before)
    · exact absurd refused ((passed _ _ (before.subset (visits ▸ mem_concat_self))).2 _)
  | abort => exact ⟨_, rfl⟩

private lemma finish_aborts : finish decoded = .abort dec ↔ decoded = .abort dec := by
  unfold finish
  repeat' split
  all_goals simp [fail]

/-- Decoding returns exactly if the handles fit in its arrays and the unknown envelopes that it
comes to are within 16 bits. -/
theorem decode_returns_iff (wellFormed : ty.WellFormed) (padded : ty.Padded)
    (addr : msg.base + msg.size < 2 ^ 64) :
    (∃ outcome, internalFidlDecodeEtcHlcppV2MayBreak cfg ty msg = some outcome ∧
        ∀ dec, outcome ≠ .abort dec) ↔
      msg.handles.length ≤ maxMsgHandles ∧ ∀ earlier envelope,
        Entered cfg ty msg earlier envelope → ¬Far (earlier ++ [.unknown envelope]) := by
  unfold internalFidlDecodeEtcHlcppV2MayBreak fidlDecodeImplHandleInfo
  by_cases few : msg.handles.length ≤ maxMsgHandles
  · rw [if_neg (Nat.not_lt.mpr few)]
    have returns : (∀ dec, fidlDecodeImpl { cfg with hlcpp := true } ty msg ≠
        .abort dec) ↔ ∀ earlier envelope, Entered { cfg with hlcpp := true } ty msg
          earlier envelope → ¬Far (earlier ++ [.unknown envelope]) := by
      rcases walks_cases wellFormed padded few addr with
        ⟨_, decodes, validates⟩ | ⟨_, next, validated, decoded, walks⟩
      · rw [decodes]
        refine iff_of_true nofun fun _ _ entered => ?_
        have noted := entered.1.noted
        rw [validates] at noted
        cases noted.subset mem_concat_self
      · have aborts := walk_aborts_iff rfl walks
        rw [walks.decodes]
        simp only [← not_exists, finish_aborts, aborts]
        grind
    have same (earlier) (envelope) : Entered { cfg with hlcpp := true } ty msg earlier
        envelope ↔ Entered cfg ty msg earlier envelope :=
      and_congr_left fun _ => ⟨fun reached => ⟨reached.noted, reached.enough⟩,
        fun reached => ⟨reached.noted, reached.enough⟩⟩
    simp only [same] at returns
    constructor
    · rintro ⟨_, ⟨⟩, returned⟩
      exact ⟨few, returns.mp returned⟩
    · rintro ⟨-, near⟩
      exact ⟨_, rfl, returns.mpr near⟩
  · rw [if_pos (Nat.not_le.mp few)]
    exact iff_of_false nofun fun ⟨fits, _⟩ => few fits

end

/-- A table with one envelope, which is unknown and has eight bytes. -/
def extended : Message where
  base := 8
  size := 32
  memory := ofBytes ([1, 0, 0, 0, 0, 0, 0, 0] ++ List.replicate 8 255 ++ [8])
  handles := []

theorem decode_returns_extended :
    ∃ outcome, internalFidlDecodeEtcHlcppV2MayBreak anyHandle (.table false .nil) extended =
      some outcome ∧ ∀ dec, outcome ≠ .abort dec := by
  have wellFormed : (CodedType.table false .nil).WellFormed := trivial
  refine (decode_returns_iff wellFormed trivial (by decide)).mpr ⟨by decide, ?_⟩
  rintro earlier envelope ⟨reached, -⟩ ⟨_, pos, far, same, -, beyond⟩
  have noted := reached.noted
  rw [same] at noted
  have noted : Visit.object pos far.numBytes ∈
      [Visit.object 16 8, .object 24 8, .unknown ⟨8, 0, 0⟩] :=
    noted.subset (mem_append_left _ mem_concat_self)
  simp at noted
  omega

/-- A table of 8190 envelopes in 64 KiB, the first of which is unknown, empty and has a handle. -/
def crowded : Message where
  base := 8
  size := 65536
  memory := ofBytes ([254, 31, 0, 0, 0, 0, 0, 0] ++ List.replicate 8 255 ++ [0, 0, 0, 0, 1])
  handles := []

/-- The envelope points right behind the message. -/
theorem crowded_aborts :
    ∃ dec, internalFidlDecodeEtcHlcppV2MayBreak anyHandle (.table false .nil) crowded =
      some (.abort dec) := ⟨_, rfl⟩

end FuchsiaSdk.CodedReach
