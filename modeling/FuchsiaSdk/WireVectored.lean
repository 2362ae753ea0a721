import FuchsiaSdk.WireEncodeImage

/-! How many iovecs the encoder may use does not change the message. The body of a
memcpy-compatible vector takes room in the backing buffer or an iovec of its own; more iovecs
leave more of the buffer free, and the bytes that are gathered in the end are the image of the
value either way. -/
namespace FuchsiaSdk.WireVectored
open Memory WireFormat WireEncoder WireEncodeHandles WireEncodeImage

/-! ## More iovecs take no more of the buffer -/

/-- Another traversal has used no more of the buffer, and as many handle indices. -/
structure Ahead (room other : Room) : Prop where
  next : other.next ≤ room.next
  index : other.index = room.index

/-- Where the first traversal goes on so does the other, with the same handles. -/
def Eases (reached other : Reached) : Prop :=
  ∀ room, reached.room = some room →
    ∃ room', other = { handles := reached.handles, room := some room' } ∧ Ahead room room'

section

variable {single many : Limits} {coding : Coding} {cfg : Config} {room other : Room}
  {reached reached' : Reached} {α : Type}

lemma eases_go (ahead : Ahead room other) : Eases (.go room) (.go other) := by
  rintro _ same
  cases same
  exact ⟨other, rfl, ahead⟩

lemma eases_stop : Eases .stop reached := nofun

lemma Eases.andThen (first : Eases reached reached')
    (second : ∀ room other, Ahead room other → Eases (next room) (next' other)) :
    Eases (reached.andThen next) (reached'.andThen next') := by
  intro after same
  cases going : reached.room with
  | none =>
    simp only [Reached.andThen, going] at same
    cases same
  | some middle =>
    obtain ⟨middle', rfl, ahead⟩ := first middle going
    simp only [Reached.andThen, going] at same ⊢
    obtain ⟨after', found, further⟩ := second middle middle' ahead after same
    exact ⟨after', by rw [found], further⟩

lemma eases_alloc (same : many.capacity = single.capacity)
    (smaller : align size' ≤ align size) (ahead : Ahead room other) :
    Eases (room.alloc single size) (other.alloc many size') := by
  have next := ahead.next
  unfold Room.alloc
  split
  · rw [if_pos (by omega)]
    exact eases_go ⟨by simp only; omega, ahead.index⟩
  · exact eases_stop

/-- With one iovec a vector body is always copied; with more it may take none of the buffer but
its unaligned end. -/
private lemma eases_memcpy (same : many.capacity = single.capacity) (one : single.iovecCapacity = 1)
    (ahead : Ahead room other) : Eases (room.memcpy single size) (other.memcpy many size) := by
  have copied : room.memcpy single size = room.alloc single size :=
    if_pos (by omega)
  rw [copied]
  unfold Room.memcpy
  split
  · exact eases_alloc same le_rfl ahead
  generalize pointed : (if size / 8 * 8 > 0 then if other.next - other.begin > 0 then
      { other with begin := other.next, iovecs := other.iovecs + 2 }
    else { other with iovecs := other.iovecs + 1 } else other) = middle
  have still : Ahead room middle := by
    rw [← pointed]
    repeat' split
    all_goals exact ⟨ahead.next, ahead.index⟩
  split
  · refine eases_alloc same ?_ still
    unfold align
    omega
  · have below := still.next
    intro _ going
    unfold Room.alloc at going ⊢
    split at going <;> cases going
    rename_i fits
    rw [if_pos fits]
    exact ⟨middle, rfl, by simp only; omega, still.index⟩

private lemma eases_handle (optional : Bool) (ahead : Ahead room other) :
    Eases (room.handle cfg handle attrs optional) (other.handle cfg handle attrs optional) := by
  unfold Room.handle
  by_cases null : handle = 0
  · rw [if_pos null]
    split
    · exact eases_go ahead
    · exact eases_stop
  · rw [if_neg null, if_neg null, ahead.index]
    intro _ going
    cases processed : cfg.processHandle attrs room.index with
    | some =>
      simp only [processed] at going
      cases going
    | none =>
      simp only [processed] at going ⊢
      cases going
      exact ⟨_, rfl, ahead.next, rfl⟩

lemma eases_deeper (inside : ∀ depth, Eases (reach depth room) (reach' depth other)) :
    Eases (reachDeeper coding depth diff reach room) (reachDeeper coding depth diff reach' other) := by
  unfold reachDeeper
  cases coding.add depth diff with
  | none => exact eases_stop
  | some depth => exact inside depth

/-- Two traversals of the same values, the second of them with more iovecs. -/
def Eased (reach reach' : α → Room → Reached) : Prop :=
  ∀ v room other, Ahead room other → Eases (reach v room) (reach' v other)

lemma eases_each (one : Eased reach reach') (ahead : Ahead room other) :
    Eases (reachEach reach values room) (reachEach reach' values other) := by
  induction values generalizing room other with
  | nil => exact eases_go ahead
  | cons v _ ih =>
    exact (one v room other ahead).andThen fun room other ahead => ih ahead

section

variable (same : many.capacity = single.capacity)
include same

lemma eases_vector (single_one : single.iovecCapacity = 1) (one : ∀ depth, Eased (reach depth) (reach' depth))
    (values : Option (List α)) (ahead : Ahead room other) :
    Eases (reachVector single coding raw reach stride limit values depth room)
      (reachVector many coding raw reach' stride limit values depth other) := by
  cases values with
  | none => exact eases_go ahead
  | some values =>
    simp only [reachVector]
    split
    · exact eases_stop
    split
    · exact eases_go ahead
    refine eases_deeper fun depth => ?_
    cases raw with
    | some raw => exact eases_memcpy same single_one ahead
    | none =>
      refine (eases_alloc same le_rfl ahead).andThen fun room other ahead => ?_
      exact eases_each (one depth) ahead

private lemma eases_string (single_one : single.iovecCapacity = 1)
    (bytes : Option (List UInt8)) (ahead : Ahead room other) :
    Eases (reachString single coding limit bytes depth room)
      (reachString many coding limit bytes depth other) := by
  refine (eases_vector same single_one (fun _ _ _ _ => eases_go) bytes ahead).andThen ?_
  intro room other ahead
  cases bytes with
  | none => exact eases_go ahead
  | some bytes =>
    simp only
    split
    · exact eases_go ahead
    · exact eases_stop

private lemma eases_box (one : ∀ depth, Eased (reach depth) (reach' depth)) (v : Option α)
    (ahead : Ahead room other) : Eases (reachBox single coding reach size v depth room)
      (reachBox many coding reach' size v depth other) := by
  cases v with
  | none => exact eases_go ahead
  | some v =>
    unfold reachBox
    refine eases_deeper fun depth => ?_
    exact (eases_alloc same le_rfl ahead).andThen fun room other ahead =>
      one depth v room other ahead

private lemma eases_envelope (one : Eased reach reach') (v : Option α) (ahead : Ahead room other) :
    Eases (reachEnvelope single reach size v room) (reachEnvelope many reach' size v other) := by
  cases v with
  | none => exact eases_go ahead
  | some v =>
    simp only [reachEnvelope]
    split
    · exact one v room other ahead
    · exact (eases_alloc same le_rfl ahead).andThen fun room other ahead =>
        one v room other ahead

end

mutual

lemma eased_type (same : many.capacity = single.capacity) (single_one : single.iovecCapacity = 1) :
    (ty : Ty) → (depth : Nat) →
      Eased (Ty.reach single coding cfg ty depth) (Ty.reach many coding cfg ty depth)
  | .primitive _, _ => fun _ _ _ => eases_go
  | .bool, _ => fun _ _ _ => eases_go
  | .array element _, depth => fun v room other ahead => by
    simp only [Ty.reach]
    split
    · exact eases_go ahead
    · exact eases_each (eased_type same single_one element depth) ahead
  | .vector element _ _, depth => fun v room other ahead =>
    eases_vector same single_one (fun depth => eased_type same single_one element depth) v ahead
  | .string _ _, depth => fun v room other ahead => eases_string same single_one v ahead
  | .handle attrs optional, _ => fun v room other ahead =>
    eases_handle optional ahead
  | .box inner, depth => fun v room other ahead =>
    eases_box same (fun depth => eased_type same single_one inner depth) v ahead
  | .struct members _, depth => fun v room other ahead =>
    eased_members same single_one members depth v room other ahead
  | .table fields, depth => fun v room other ahead => by
    simp only [Ty.reach]
    split
    · exact eases_go ahead
    refine (eases_alloc same le_rfl ahead).andThen fun room other ahead => ?_
    exact eases_deeper fun depth =>
      eased_fields same single_one fields depth v room other ahead

lemma eased_members (same : many.capacity = single.capacity)
    (single_one : single.iovecCapacity = 1) : (members : Members) → (depth : Nat) →
      Eased (Members.reach single coding cfg members depth) (Members.reach many coding cfg members depth)
  | .nil, _ => fun _ _ _ => eases_go
  | .cons ty _ rest, depth => fun v room other ahead =>
    (eased_type same single_one ty depth v.1 room other ahead).andThen fun room other ahead =>
      eased_members same single_one rest depth v.2 room other ahead

lemma eased_fields (same : many.capacity = single.capacity)
    (single_one : single.iovecCapacity = 1) : (fields : Fields) → (depth : Nat) →
      Eased (Fields.reach single coding cfg fields depth) (Fields.reach many coding cfg fields depth)
  | .nil, _ => fun _ _ _ => eases_go
  | .reserved _, _ => fun
    | none, _, _, ahead => eases_go ahead
    | some v, room, other, ahead => eased_fields same single_one _ _ v.2 room other ahead
  | .field ty rest, depth => fun
    | none, _, _, ahead => eases_go ahead
    | some v, _, _, ahead =>
      (eases_envelope same (eased_type same single_one ty depth) v.1 ahead).andThen
        fun room other ahead => eased_fields same single_one rest depth v.2 room other ahead

end

end

/-! ## Any two capacities -/

/-- `WireEncode` returned iovecs and handles. -/
def Succeeds (outcome : Outcome × Encoder) : Prop :=
  ∃ iovecs handles, outcome.1 = .ok iovecs handles

private lemma succeeds_of_single (succeeds : Succeeds (wireEncode coding cfg ty v
      { iovecCapacity := 1, capacity, memory, handleCapacity })) :
    Succeeds (wireEncode coding cfg ty v
      { iovecCapacity, capacity, memory := memory', handleCapacity }) := by
  let single : Limits := { capacity, iovecCapacity := 1 }
  let many : Limits := { capacity, iovecCapacity }
  obtain ⟨_, _, encoded⟩ := succeeds
  have sound := (Encoder.finish_eq_ok (Prod.ext encoded rfl)).1
  have first := wireEncode_follows coding cfg v memory single handleCapacity
  have second := wireEncode_follows coding cfg v memory' many handleCapacity
  cases first with
  | stopped ended fits error | leaked beyond error => exact absurd (sound.symm.trans error) nofun
  | going room same matched count =>
    have eases : Eases ((Room.alloc single ty.inlineSize {}).andThen
        (Ty.reach single coding cfg ty 0 v))
        ((Room.alloc many ty.inlineSize {}).andThen (Ty.reach many coding cfg ty 0 v)) :=
      (eases_alloc rfl le_rfl ⟨le_rfl, rfl⟩).andThen fun room other ahead =>
        @eased_type single many coding cfg rfl rfl ty 0 v room other ahead
    obtain ⟨room', reached, -⟩ := eases room same
    have fits := matched.within
    rw [count, (wireEncode_keeps coding cfg v _).handleCapacity] at fits
    rw [reached] at second
    cases second with
    | stopped ended => cases ended
    | leaked beyond => exact absurd fits (Nat.not_le.mpr beyond)
    | going room' _ matched' =>
      have encoded' : wireEncode coding cfg ty v
          { many with memory := memory', handleCapacity } = _ :=
        Encoder.finish_of_sound matched'.sound
      exact ⟨_, _, congrArg Prod.fst encoded'⟩

/-- The iovec capacity changes neither the bytes nor the handles of a message. What succeeds with
one iovec succeeds with any number of them, and no more than the capacity are used. -/
theorem wireEncode_iovecs (coding : Coding) (cfg : Config) (ty : Ty) (wellFormed : ty.WellFormed)
    (v : ty.Value) (capacity handleCapacity : Nat) (small : capacity < 2 ^ 32) :
    let encode := fun memory iovecCapacity => wireEncode coding cfg ty v
      { iovecCapacity, capacity, memory, handleCapacity }
    (∀ (memory memory' : Memory) (first second : Nat), 1 ≤ first → 1 ≤ second →
      ∀ iovecs iovecs' handles handles', (encode memory first).1 = .ok iovecs handles →
        (encode memory' second).1 = .ok iovecs' handles' →
        gather (encode memory first).2.memory iovecs =
            gather (encode memory' second).2.memory iovecs' ∧ handles = handles') ∧
      (∀ (memory memory' : Memory) (larger : Nat), 1 ≤ larger →
        Succeeds (encode memory 1) → Succeeds (encode memory' larger)) ∧
      ∀ (memory : Memory) (limit : Nat), 1 ≤ limit →
        (encode memory limit).2.iovecs.length ≤ limit := by
  refine ⟨?_, ?_, ?_⟩
  · intro memory memory' first second _ _ iovecs iovecs' handles handles' encoded encoded'
    obtain ⟨_, sends⟩ := @wireEncode_sends coding cfg ty wellFormed v
    obtain ⟨_, found, same, bytes, -⟩ :=
      @sends memory ⟨capacity, first⟩ handleCapacity _ _ _ (Prod.ext encoded rfl)
    obtain ⟨_, found', same', bytes', -⟩ :=
      @sends memory' ⟨capacity, second⟩ handleCapacity _ _ _ (Prod.ext encoded' rfl)
    cases found.symm.trans found'
    exact ⟨(bytes small).trans (bytes' small).symm, same.trans same'.symm⟩
  · intro memory memory' larger _ succeeds
    exact succeeds_of_single succeeds
  · intro memory limit positive
    have fresh : Spare { iovecCapacity := limit, capacity, memory, handleCapacity } := positive
    have used := iovecs_finish (wireEncode_spare coding cfg v fresh)
    rwa [(wireEncode_keeps coding cfg v _).iovecCapacity] at used

/-- A vector of eleven bytes, copied with one iovec and pointed to with four. -/
theorem wireEncode_iovecs_bytes :
    let ty : Ty := .struct (.cons (.vector (.primitive 1) 16 false) 0 .nil) []
    let bytes : List (Vector UInt8 1) := (List.range 11).map fun byte => #v[UInt8.ofNat byte]
    let encode := fun iovecCapacity => wireEncode ⟨false, 2, fun _ => true, rfl⟩ ⟨fun _ _ => none⟩ ty
      (some bytes, ()) { iovecCapacity, capacity := 64, memory := fun _ => 255, handleCapacity := 0 }
    (encode 1).1 = .ok [.backing 0 32] [] ∧
      (encode 4).1 = .ok [.backing 0 16, .external [0, 1, 2, 3, 4, 5, 6, 7], .backing 16 8] [] ∧
      gather (encode 1).2.memory [.backing 0 32] =
        gather (encode 4).2.memory
          [.backing 0 16, .external [0, 1, 2, 3, 4, 5, 6, 7], .backing 16 8] := by
  intro ty bytes encode
  have copied : (encode 1).1 = .ok [.backing 0 32] [] := by decide +kernel
  have pointed : (encode 4).1 =
      .ok [.backing 0 16, .external [0, 1, 2, 3, 4, 5, 6, 7], .backing 16 8] [] := by
    decide +kernel
  have wellFormed : ty.WellFormed :=
    ⟨⟨Nat.one_pos, trivial⟩, by decide, nofun, nofun, fun off gap => by
      simp [Members.gapAt] at gap⟩
  refine ⟨copied, pointed, ?_⟩
  exact ((wireEncode_iovecs ⟨false, 2, fun _ => true, rfl⟩ ⟨fun _ _ => none⟩ ty wellFormed
    (some bytes, ()) 64 0 (by decide)).1 _ _ 1 4 (by decide) (by decide) _ _ _ _ copied pointed).1

end FuchsiaSdk.WireVectored
