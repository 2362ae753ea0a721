import FuchsiaSdk.WireEncoder

/-! Where the handles of a value are after `WireEncode`: still in the value,
among the returned handles, or closed. `EncodeHandle` drops a handle it has
taken when the handle array is full, so this holds exactly if the traversal
meets another error before it reaches one present handle too many. -/
namespace FuchsiaSdk.WireEncodeHandles
open Memory WireFormat WireEncoder
open List hiding after all
open Encoder (encodeHandle hasError_eq_false checkSize_released)

/-! ## What a traversal reaches before its first error -/

/-- How much of the backing buffer, the iovecs and the handle indices a
traversal has used. -/
structure Room where
  next : Nat := 0
  begin : Nat := 0
  iovecs : Nat := 0
  index : Nat := 0
  deriving DecidableEq, Repr

/-- The present handles that were reached, and the room after them unless an
error came first. -/
structure Reached where
  handles : List Handle := []
  room : Option Room
  deriving DecidableEq, Repr

namespace Reached

def go (room : Room) : Reached := { room := some room }

def stop : Reached := { room := none }

def andThen (reached : Reached) (next : Room → Reached) : Reached :=
  match reached.room with
  | none => reached
  | some room =>
    { handles := reached.handles ++ (next room).handles
      room := (next room).room }

end Reached

lemma Reached.andThen_go (reached : Reached) : reached.andThen .go = reached := by
  obtain ⟨_, room⟩ := reached
  cases room <;> simp [andThen, go]

/-- What the encoder is given. -/
structure Limits where
  capacity : Nat
  iovecCapacity : Nat

def Room.alloc (limits : Limits) (size : Nat) (room : Room) : Reached :=
  if room.next + align size ≤ limits.capacity then
    .go { room with next := room.next + align size }
  else .stop

/-- The body of a memcpy-compatible vector, of which the aligned part takes no
room if there are iovecs for it. -/
def Room.memcpy (limits : Limits) (size : Nat) (room : Room) : Reached :=
  if room.iovecs + 2 ≥ limits.iovecCapacity then room.alloc limits size
  else
    let room :=
      if size / 8 * 8 > 0 then
        if room.next - room.begin > 0 then
          { room with begin := room.next, iovecs := room.iovecs + 2 }
        else { room with iovecs := room.iovecs + 1 }
      else room
    if size - size / 8 * 8 > 0 then room.alloc limits (size - size / 8 * 8) else .go room

def Room.handle (cfg : Config) (handle : Handle) (attrs : HandleAttributes)
    (optional : Bool) (room : Room) : Reached :=
  if handle = 0 then if optional then .go room else .stop
  else
    { handles := [handle]
      room :=
        match cfg.processHandle attrs room.index with
        | some _ => none
        | none => some { room with index := room.index + 1 } }

def reachDeeper (coding : Coding) (depth diff : Nat) (body : Nat → Room → Reached) (room : Room) :
    Reached :=
  match coding.add depth diff with
  | none => .stop
  | some depth => body depth room

def reachEach {α : Type} (reach : α → Room → Reached) : List α → Room → Reached
  | [], room => .go room
  | v :: rest, room => (reach v room).andThen (reachEach reach rest)

section

variable (limits : Limits) (coding : Coding) (cfg : Config)

def reachVector {α : Type} (raw : Option (α → List UInt8)) (reach : Nat → α → Room → Reached)
    (stride limit : Nat) (values : Option (List α)) (depth : Nat) (room : Room) : Reached :=
  match values with
  | none => .go room
  | some values =>
    if values.length > limit then .stop
    else if values = [] then .go room
    else
      reachDeeper coding depth 1 (fun depth room =>
        match raw with
        | some raw => room.memcpy limits (values.flatMap raw).length
        | none =>
          (room.alloc limits (values.length * stride)).andThen (reachEach (reach depth) values))
        room

def reachString (limit : Nat) (bytes : Option (List UInt8)) (depth : Nat) (room : Room) : Reached :=
  (reachVector limits coding (some fun byte => [byte]) (fun _ _ room => .go room) 1 limit bytes
    depth room).andThen fun room =>
      match bytes with
      | none => .go room
      | some bytes => if coding.isValidUtf8 bytes then .go room else .stop

def reachBox {α : Type} (reach : Nat → α → Room → Reached) (size : Nat) (v : Option α)
    (depth : Nat) (room : Room) : Reached :=
  match v with
  | none => .go room
  | some v =>
    reachDeeper coding depth 1
      (fun depth room => (room.alloc limits size).andThen (reach depth v)) room

def reachEnvelope {α : Type} (reach : α → Room → Reached) (size : Nat) (v : Option α)
    (room : Room) : Reached :=
  match v with
  | none => .go room
  | some v =>
    if size ≤ inliningSizeThreshold then reach v room
    else (room.alloc limits size).andThen (reach v)

mutual

/-- Encoding a value, as far as handles and errors go. -/
def Ty.reach : (ty : Ty) → (depth : Nat) → ty.Value → Room → Reached
  | .primitive _, _, _, room => .go room
  | .bool, _, _, room => .go room
  | .array element _, depth, v, room =>
    if element.isMemcpyCompatible then .go room
    else reachEach (Ty.reach element depth) (Vector.toList v) room
  | .vector element limit _, depth, v, room =>
    reachVector limits coding (if element.isMemcpyCompatible then some element.raw else none)
      (fun depth => Ty.reach element depth) element.inlineSize limit v depth room
  | .string limit _, depth, v, room => reachString limits coding limit v depth room
  | .handle attrs optional, _, v, room => room.handle cfg v attrs optional
  | .box inner, depth, v, room =>
    reachBox limits coding (fun depth => Ty.reach inner depth) inner.inlineSize v depth room
  | .struct members _, depth, v, room => Members.reach members depth v room
  | .table fields, depth, v, room =>
    if fields.count v = 0 then .go room
    else
      (room.alloc limits (8 * fields.count v)).andThen
        (reachDeeper coding depth coding.tableDepth fun depth room =>
          Fields.reach fields depth v room)

def Members.reach : (members : Members) → (depth : Nat) → members.Value → Room → Reached
  | .nil, _, _, room => .go room
  | .cons ty _ rest, depth, v, room =>
    (Ty.reach ty depth v.1 room).andThen (Members.reach rest depth v.2)

def Fields.reach : (fields : Fields) → (depth : Nat) → fields.Value → Room → Reached
  | .nil, _, _, room => .go room
  | .reserved _, _, none, room => .go room
  | .reserved rest, depth, some v, room => Fields.reach rest depth v.2 room
  | .field _ _, _, none, room => .go room
  | .field ty rest, depth, some v, room =>
    (reachEnvelope limits (Ty.reach ty depth) ty.inlineSize v.1 room).andThen
      (Fields.reach rest depth v.2)

end

end

/-! ## What holds after an error -/

/-- Every handle taken from the value is stored or closed. -/
def Balanced (enc : Encoder) : Prop :=
  enc.released.Perm (enc.handles ++ enc.closed)

/-- One handle taken from the value is neither stored nor closed. -/
def Leaky (enc : Encoder) : Prop :=
  enc.released.length = enc.handles.length + enc.closed.length + 1

structure Keeps (before after : Encoder) : Prop where
  capacity : after.capacity = before.capacity
  iovecCapacity : after.iovecCapacity = before.iovecCapacity
  handleCapacity : after.handleCapacity = before.handleCapacity
  error : before.hasError = true → after.hasError = true
  balanced : before.hasError = true → Balanced before → Balanced after
  leaky : before.hasError = true → Leaky before → Leaky after

/-- What moves no handle and takes back no error. -/
structure Quiet (before after : Encoder) : Prop where
  capacity : after.capacity = before.capacity
  iovecCapacity : after.iovecCapacity = before.iovecCapacity
  handleCapacity : after.handleCapacity = before.handleCapacity
  next : before.next ≤ after.next
  error : before.error.isSome = true → after.error.isSome = true
  handles : after.handles = before.handles
  released : after.released = before.released
  closed : after.closed = before.closed

namespace Quiet

variable {before after middle : Encoder}

lemma keeps (quiet : Quiet before after) : Keeps before after where
  capacity := quiet.capacity
  iovecCapacity := quiet.iovecCapacity
  handleCapacity := quiet.handleCapacity
  error := by
    have error := quiet.error
    have next := quiet.next
    simp only [Encoder.hasError, Bool.or_eq_true, decide_eq_true_eq, quiet.capacity]
    rintro (failed | beyond)
    · exact Or.inl (error failed)
    · exact Or.inr (Nat.lt_of_lt_of_le beyond next)
  balanced := by
    intro _ balanced
    rwa [Balanced, quiet.handles, quiet.released, quiet.closed]
  leaky := by
    intro _ leaky
    rwa [Leaky, quiet.handles, quiet.released, quiet.closed]

lemma trans (first : Quiet before middle) (second : Quiet middle after) : Quiet before after where
  capacity := second.capacity.trans first.capacity
  iovecCapacity := second.iovecCapacity.trans first.iovecCapacity
  handleCapacity := second.handleCapacity.trans first.handleCapacity
  next := Nat.le_trans first.next second.next
  error := second.error ∘ first.error
  handles := second.handles.trans first.handles
  released := second.released.trans first.released
  closed := second.closed.trans first.closed

section

variable (enc : Encoder)
include enc

lemma refl : Quiet enc enc := ⟨rfl, rfl, rfl, le_rfl, id, rfl, rfl, rfl⟩

lemma write (pos : Nat) (bytes : List UInt8) : Quiet enc (enc.write pos bytes) :=
  ⟨rfl, rfl, rfl, le_rfl, id, rfl, rfl, rfl⟩

lemma setError (error : CodingError) : Quiet enc (enc.setError error) := by
  refine ⟨rfl, rfl, rfl, le_rfl, ?_, rfl, rfl, rfl⟩
  intro failed
  cases found : enc.error with
  | none => simp [found] at failed
  | some => simp [Encoder.setError, found]

lemma alloc (size : Nat) : Quiet enc (enc.alloc size).2 := by
  unfold Encoder.alloc
  split <;> exact ⟨rfl, rfl, rfl, Nat.le_add_right _ _, id, rfl, rfl, rfl⟩

lemma append (bytes : List UInt8) : Quiet enc (enc.append bytes) := by
  have moved := alloc enc bytes.length
  unfold Encoder.append Encoder.allocThen
  split
  next after failed => rwa [failed] at moved
  next pos after done =>
    rw [done] at moved
    exact moved.trans (write ..)

lemma finishIovec : Quiet enc enc.finishIovec := by
  unfold Encoder.finishIovec
  split <;> exact ⟨rfl, rfl, rfl, le_rfl, id, rfl, rfl, rfl⟩

lemma aligned (bytes : List UInt8) : Quiet enc (if bytes.length / 8 * 8 > 0 then
        enc.finishIovec.pointTo (bytes.take (bytes.length / 8 * 8)) else enc) := by
  split
  · exact (finishIovec enc).trans ⟨rfl, rfl, rfl, le_rfl, id, rfl, rfl, rfl⟩
  · exact refl enc

lemma memcpy (bytes : List UInt8) : Quiet enc (enc.encodeMemcpyableVector bytes) := by
  unfold Encoder.encodeMemcpyableVector
  split
  · exact append ..
  simp only
  split
  · exact (aligned enc bytes).trans (append ..)
  · exact aligned enc bytes

end

end Quiet

private lemma keeps_handle (enc : Encoder) (handle : Handle)
    (attrs : HandleAttributes) (pos : Nat) (optional : Bool) :
    Keeps enc (enc.encodeHandle cfg handle attrs pos optional) := by
  unfold encodeHandle
  split
  · split
    · exact (Quiet.write ..).keeps
    · exact (Quiet.setError ..).keeps
  split <;> rename_i failed
  · refine ⟨rfl, rfl, rfl, fun _ => failed, fun _ balanced => ?_, fun _ leaky => ?_⟩
    · unfold Balanced Encoder.close Encoder.release
      rw [← append_assoc]
      exact balanced.append_right _
    · unfold Leaky Encoder.close Encoder.release at *
      simp only [length_append, length_cons, length_nil]
      omega
  · have sound : ∀ {after : Encoder}, after.capacity = enc.capacity →
        after.iovecCapacity = enc.iovecCapacity →
        after.handleCapacity = enc.handleCapacity → Keeps enc after :=
      fun capacity iovecs handles => ⟨capacity, iovecs, handles, fun error => absurd error failed,
        fun error => absurd error failed, fun error => absurd error failed⟩
    split
    · exact sound rfl rfl rfl
    · split <;> exact sound rfl rfl rfl

lemma Keeps.trans (first : Keeps before middle) (second : Keeps middle after) : Keeps before after where
  capacity := second.capacity.trans first.capacity
  iovecCapacity := second.iovecCapacity.trans first.iovecCapacity
  handleCapacity := second.handleCapacity.trans first.handleCapacity
  error failed := second.error (first.error failed)
  balanced failed balanced := second.balanced (first.error failed) (first.balanced failed balanced)
  leaky failed leaky := second.leaky (first.error failed) (first.leaky failed leaky)

lemma Keeps.write (keeps : Keeps before after) : Keeps before (after.write pos bytes) :=
  keeps.trans (Quiet.write ..).keeps

lemma keeps_respected (cfg : Config) : Respected cfg fun _ => Keeps where
  refl enc := (Quiet.refl enc).keeps
  trans := Keeps.trans
  weaken := id
  write enc pos bytes := (Quiet.write enc pos bytes).keeps
  alloc enc size := (Quiet.alloc enc size).keeps
  memcpy enc bytes := (Quiet.memcpy enc bytes).keeps
  setError enc error := (Quiet.setError enc error).keeps
  handle := keeps_handle

/-! ## The encoder follows the traversal -/

/-- The encoder has met no error and has used this room. -/
structure Matches (limits : Limits) (room : Room) (enc : Encoder) : Prop where
  sound : enc.hasError = false
  balanced : Balanced enc
  closed : enc.closed = []
  within : enc.handles.length ≤ enc.handleCapacity
  capacity : enc.capacity = limits.capacity
  iovecCapacity : enc.iovecCapacity = limits.iovecCapacity
  next : enc.next = room.next
  begin : enc.begin = room.begin
  iovecs : enc.iovecs.length = room.iovecs
  index : enc.handles.length = room.index

/-- What the encoder has done where the traversal has reached this much. -/
inductive Follows (limits : Limits) (before : Encoder) (reached : Reached) (after : Encoder) : Prop
  | going (room : Room) (same : reached.room = some room) (matched : Matches limits room after)
      (count : after.handles.length = before.handles.length + reached.handles.length)
  | stopped (ended : reached.room = none)
      (fits : before.handles.length + reached.handles.length ≤ before.handleCapacity)
      (error : after.hasError = true) (balanced : Balanced after)
  | leaked (beyond : before.handleCapacity < before.handles.length + reached.handles.length)
      (error : after.hasError = true) (leaky : Leaky after)

section

variable {limits : Limits} {coding : Coding} {cfg : Config} {before middle after enc : Encoder}
  {reached : Reached} {room : Room} {α : Type} {optional : Bool}

lemma Follows.andThen (first : Follows limits before reached middle)
    (stays : middle.handleCapacity = before.handleCapacity) (keeps : Keeps middle after)
    (second : ∀ room, Matches limits room middle → Follows limits middle (later room) after) :
    Follows limits before (reached.andThen later) after := by
  cases first with
  | going room same matched count =>
    have joined : reached.andThen later =
        { handles := reached.handles ++ (later room).handles, room := (later room).room } := by
      simp [Reached.andThen, same]
    rw [joined]
    cases second room matched with
    | going room' same' matched' count' =>
      exact .going room' same' matched' (by rw [count', count, length_append, Nat.add_assoc])
    | stopped ended fits error balanced =>
      refine .stopped ended ?_ error balanced
      rw [length_append]
      omega
    | leaked beyond error leaky =>
      refine .leaked ?_ error leaky
      rw [length_append]
      omega
  | stopped ended fits error balanced =>
    have joined : reached.andThen later = reached := by simp [Reached.andThen, ended]
    rw [joined]
    exact .stopped ended fits (keeps.error error) (keeps.balanced error balanced)
  | leaked beyond error leaky =>
    refine .leaked ?_ (keeps.error error) (keeps.leaky error leaky)
    unfold Reached.andThen
    split
    · exact beyond
    · simp only [length_append]
      omega

lemma Quiet.follows (quiet : Quiet before middle) (follows : Follows limits middle reached after) :
    Follows limits before reached after := by
  have handles := quiet.handles
  have capacity := quiet.handleCapacity
  cases follows with
  | going room same matched count => exact .going room same matched (by rw [count, handles])
  | stopped ended fits error balanced =>
    exact .stopped ended (by rw [← handles, ← capacity]; exact fits) error balanced
  | leaked beyond error leaky =>
    exact .leaked (by rw [← handles, ← capacity]; exact beyond) error leaky

lemma Follows.write (follows : Follows limits before reached after) :
    Follows limits before reached (after.write pos bytes) := by
  cases follows with
  | going room same matched count => exact .going room same { matched with } count
  | stopped ended fits error balanced => exact .stopped ended fits error balanced
  | leaked beyond error leaky => exact .leaked beyond error leaky

section

variable (matched : Matches limits room enc)
include matched

lemma Matches.go : Follows limits enc (.go room) enc := .going room rfl matched rfl

lemma Matches.write (pos : Nat) (bytes : List UInt8) : Matches limits room (enc.write pos bytes) :=
  { matched with }

lemma Matches.wrote (pos : Nat)
    (bytes : List UInt8) : Follows limits enc (.go room) (enc.write pos bytes) :=
  .going room rfl (matched.write pos bytes) rfl

lemma Matches.stop (error : CodingError) : Follows limits enc .stop (enc.setError error) := by
  refine .stopped rfl matched.within ?_ matched.balanced
  simp [Encoder.hasError, Encoder.setError]

lemma Matches.alloc (size : Nat) :
    Follows limits enc (room.alloc limits size) (enc.alloc size).2 := by
  have next := matched.next
  have capacity := matched.capacity
  unfold Room.alloc
  split
  · rw [Encoder.alloc_fits (by omega)]
    refine .going _ rfl { matched with sound := ?_, next := congrArg (· + align size) next } rfl
    obtain ⟨error, -⟩ := hasError_eq_false.mp matched.sound
    refine hasError_eq_false.mpr ⟨error, ?_⟩
    simp only [Encoder.write, Encoder.advance]
    omega
  · rw [Encoder.alloc_over (by omega)]
    refine .stopped rfl matched.within (Encoder.hasError_of_over ?_) matched.balanced
    simp only [Encoder.advance]
    omega

lemma Matches.allocThen {next : Room → Reached} (keeps : ∀ pos enc, Keeps enc (body pos enc))
    (inside : ∀ pos room enc, Matches limits room enc →
      Follows limits enc (next room) (body pos enc)) :
    Follows limits enc ((room.alloc limits size).andThen next) (enc.allocThen size body) := by
  have first := matched.alloc size
  have stays := (Quiet.alloc enc size).handleCapacity
  unfold Encoder.allocThen
  by_cases fits : enc.next + align size ≤ enc.capacity
  · rw [Encoder.alloc_fits fits] at first stays ⊢
    exact first.andThen stays (keeps ..) fun room matched => inside _ room _ matched
  rw [Encoder.alloc_over fits] at first ⊢
  have beyond : room.alloc limits size = .stop := by
    rw [matched.next, matched.capacity] at fits
    exact if_neg fits
  rw [beyond] at first ⊢
  exact first

lemma Matches.deeper {reach : Nat → Room → Reached} {body : Nat → Encoder → Encoder}
    (inside : ∀ depth, Follows limits enc (reach depth room) (body depth enc)) :
    Follows limits enc (reachDeeper coding depth diff reach room)
      (enc.deeper coding depth diff body) := by
  unfold reachDeeper Encoder.deeper
  cases coding.add depth diff with
  | none => exact matched.stop _
  | some depth => exact inside depth

end

lemma Matches.each (keeps : ∀ v pos enc, Keeps enc (encode v pos enc))
    (one : ∀ v pos room enc, Matches limits room enc →
      Follows limits enc (reach v room) (encode v pos enc))
    (cfg : Config) (stride : Nat) (values : List α) : ∀ {room enc}, Matches limits room enc → ∀ pos,
      Follows limits enc (reachEach reach values room) (encodeEach encode stride values pos enc) := by
  induction values with
  | nil => exact fun matched _ => matched.go
  | cons v _ ih =>
    intro room enc matched pos
    refine (one v pos room enc matched).andThen (keeps ..).handleCapacity ?_ ?_
    · exact (keeps_respected cfg).each (fun _ => []) keeps ..
    · exact fun room matched => ih matched _

section

variable (matched : Matches limits room enc)
include matched

lemma Matches.append (bytes : List UInt8) :
    Follows limits enc (room.alloc limits bytes.length) (enc.append bytes) := by
  rw [← Reached.andThen_go (room.alloc limits bytes.length)]
  exact matched.allocThen (fun pos enc => (Quiet.write enc pos bytes).keeps)
    fun pos room enc matched => matched.wrote pos bytes

/-- The aligned part of a vector body that becomes an iovec of its own. -/
lemma Matches.pointTo (bytes : List UInt8) : Matches limits (if room.next - room.begin > 0 then
        { room with begin := room.next, iovecs := room.iovecs + 2 }
      else { room with iovecs := room.iovecs + 1 })
      (enc.finishIovec.pointTo bytes) := by
  have next := matched.next
  have begin := matched.begin
  have iovecs := matched.iovecs
  unfold Encoder.finishIovec Encoder.consumedBytesInCurrentIovec Encoder.pointTo
  split
  · rw [if_pos (by omega)]
    exact { matched with begin := next, iovecs := by simp [iovecs] }
  · rw [if_neg (by omega)]
    exact { matched with iovecs := by simp [iovecs] }

lemma Matches.memcpy (bytes : List UInt8) : Follows limits enc (room.memcpy limits bytes.length)
      (enc.encodeMemcpyableVector bytes) := by
  unfold Room.memcpy Encoder.encodeMemcpyableVector
  rw [matched.iovecs, matched.iovecCapacity]
  split
  · exact matched.append bytes
  simp only
  have flushed : Matches limits
      (if bytes.length / 8 * 8 > 0 then if room.next - room.begin > 0 then
          { room with begin := room.next, iovecs := room.iovecs + 2 }
        else { room with iovecs := room.iovecs + 1 } else room)
      (if bytes.length / 8 * 8 > 0 then
        enc.finishIovec.pointTo (bytes.take (bytes.length / 8 * 8)) else enc) := by
    split
    · exact matched.pointTo _
    · exact matched
  have tail : (bytes.drop (bytes.length / 8 * 8)).length = bytes.length - bytes.length / 8 * 8 :=
    length_drop
  have quiet : Quiet enc
      (if bytes.length / 8 * 8 > 0 then
        enc.finishIovec.pointTo (bytes.take (bytes.length / 8 * 8)) else enc) :=
    Quiet.aligned enc bytes
  split
  · have appended := flushed.append (bytes.drop (bytes.length / 8 * 8))
    rw [tail] at appended
    exact quiet.follows appended
  · exact quiet.follows flushed.go

lemma Matches.handle (cfg : Config) (handle : Handle)
    (attrs : HandleAttributes) (pos : Nat) (optional : Bool) :
    Follows limits enc (room.handle cfg handle attrs optional)
      (enc.encodeHandle cfg handle attrs pos optional) := by
  unfold Room.handle encodeHandle
  split
  · split
    · exact matched.wrote ..
    · exact matched.stop _
  rw [if_neg (by simp [matched.sound]), ← matched.index]
  have balanced := matched.balanced
  by_cases full : enc.handles.length ≥ enc.handleCapacity
  · rw [if_pos full]
    refine .leaked ?_ ?_ ?_
    · simp only [length_cons, length_nil]
      omega
    · simp [Encoder.hasError, Encoder.setError]
    · have balanced := balanced.length_eq
      simp only [length_append] at balanced
      simp only [Leaky, Encoder.setError, Encoder.release, length_append, length_cons, length_nil]
      omega
  · rw [if_neg full]
    have stored : Balanced (((enc.release handle).write pos
        (littleEndian 4 handlePresent)).storeHandle handle) := by
      unfold Balanced Encoder.storeHandle Encoder.write Encoder.release
      simp only [append_assoc]
      refine (balanced.append_right [handle]).trans ?_
      rw [append_assoc]
      exact perm_append_comm.append_left _
    cases outcome : cfg.processHandle attrs enc.handles.length with
    | some =>
      refine .stopped rfl ?_ (by simp [Encoder.hasError, Encoder.setError]) stored
      simp only [length_cons, length_nil]
      omega
    | none =>
      refine .going _ rfl { matched with
        balanced := stored, within := ?_, index := ?_ } ?_
      all_goals simp only [Encoder.storeHandle, Encoder.write, Encoder.release, length_append,
        length_cons, length_nil]
      omega

end

/-- Encoding one value keeps errors and follows its traversal. -/
structure Sound (limits : Limits) (reach : α → Room → Reached)
    (encode : α → Nat → Encoder → Encoder) : Prop where
  keeps : ∀ v pos enc, Keeps enc (encode v pos enc)
  follows : ∀ v pos room enc, Matches limits room enc →
    Follows limits enc (reach v room) (encode v pos enc)

section

variable (matched : Matches limits room enc)
include matched

lemma Matches.vector (cfg : Config) (sound : ∀ depth, Sound limits (reach depth) (encode depth)) :
    Follows limits enc (reachVector limits coding raw reach stride limit values depth room)
      (encodeVector coding raw encode stride limit optional values pos depth enc) := by
  cases values with
  | none => exact matched.wrote ..
  | some values =>
    unfold reachVector
    simp only
    split
    next beyond =>
      rw [encodeVector_over beyond]
      exact matched.stop _
    cases values with
    | nil => exact matched.wrote ..
    | cons v rest =>
      rw [encodeVector_cons ‹_›]
      simp only [reduceCtorEq, ↓reduceIte]
      have headed := matched.write pos (vectorHeader (v :: rest).length allocPresent)
      refine (Quiet.write ..).follows (headed.deeper fun depth => ?_)
      cases raw with
      | some raw => exact headed.memcpy _
      | none =>
        refine headed.allocThen (fun pos enc => ?_) fun pos room enc matched => ?_
        · exact (keeps_respected cfg).each (fun _ => []) (sound depth).keeps ..
        · exact matched.each (sound depth).keeps (sound depth).follows cfg ..

lemma Matches.string (cfg : Config) :
    Follows limits enc (reachString limits coding limit bytes depth room)
      (encodeString coding limit optional bytes pos depth enc) := by
  have kept := keeps_respected cfg
  unfold reachString encodeString
  have body : Follows limits enc _ (encodeVector coding (some fun byte => [byte])
      (fun _ _ _ enc => enc) 1 limit optional bytes pos depth enc) :=
    matched.vector cfg fun _ =>
      ⟨fun _ _ enc => kept.refl enc, fun _ _ _ _ matched => matched.go⟩
  have stays : Keeps enc (encodeVector coding (some fun byte => [byte])
      (fun _ _ _ enc => enc) 1 limit optional bytes pos depth enc) :=
    kept.vector (fun _ => []) fun _ _ _ enc => kept.refl enc
  revert body stays
  generalize encodeVector coding (some fun byte => [byte])
    (fun _ _ _ enc => enc) 1 limit optional bytes pos depth enc = middle
  intro body stays
  refine body.andThen stays.handleCapacity ?_ fun room matched => ?_
  · cases bytes with
    | none => exact kept.refl middle
    | some bytes =>
      simp only
      split
      · exact kept.refl middle
      split
      · exact kept.refl middle
      · exact kept.setError ..
  · cases bytes with
    | none => exact matched.go
    | some bytes =>
      have unfailed : ¬middle.hasError = true := by simp [matched.sound]
      simp only [if_neg unfailed]
      split
      · exact matched.go
      · exact matched.stop _

lemma Matches.box (sound : ∀ depth, Sound limits (reach depth) (encode depth)) :
    Follows limits enc (reachBox limits coding reach size v depth room)
      (encodeBox coding encode size v pos depth enc) := by
  unfold reachBox encodeBox
  cases v with
  | none => exact matched.wrote ..
  | some v =>
    refine matched.deeper fun depth => ?_
    have marked := matched.write pos (littleEndian 8 allocPresent)
    refine (Quiet.write ..).follows (marked.allocThen ((sound depth).keeps v) ?_)
    exact (sound depth).follows v

lemma Matches.envelope (sound : Sound limits reach encode) :
    Follows limits enc (reachEnvelope limits reach size v room)
      (encodeEnvelope encode size v pos enc) := by
  unfold reachEnvelope encodeEnvelope
  cases v with
  | none => exact matched.wrote ..
  | some v =>
    simp only
    split
    · have zeroed := matched.write pos (replicate 4 0)
      have inside := sound.follows v pos room _ zeroed
      exact (Quiet.write ..).follows (inside.write.write)
    · refine matched.allocThen (fun body enc => ?_) fun body room enc matched => ?_
      · exact (sound.keeps ..).write.write.write
      · exact (sound.follows v body room enc matched).write.write.write

end

lemma Matches.unsetEach {α : Type} (values : List α) :
    ∀ {enc : Encoder}, Matches limits room enc → ∀ pos, Follows limits enc (.go room)
      (encodeEach (fun _ => encodeUnsetEnvelope) 8 values pos enc) := by
  induction values with
  | nil => exact fun matched _ => matched.go
  | cons _ _ ih =>
    exact fun matched pos => (Quiet.write ..).follows (ih (matched.write ..) _)

lemma Matches.zeroPaddings (matched : Matches limits room enc) (pos : Nat) (paddings : List Padding) :
    Matches limits room (WireEncoder.zeroPaddings pos paddings enc) := by
  induction paddings generalizing enc with
  | nil => exact matched
  | cons _ _ ih => exact ih (matched.write ..)

lemma Quiet.zeroPaddings (enc : Encoder) (pos : Nat) (paddings : List Padding) :
    Quiet enc (WireEncoder.zeroPaddings pos paddings enc) := by
  induction paddings generalizing enc with
  | nil => exact Quiet.refl enc
  | cons _ _ ih => exact (Quiet.write ..).trans (ih _)

lemma sound_of_follows (follows : ∀ v pos {room enc}, Matches limits room enc →
      Follows limits enc (Ty.reach limits coding cfg ty depth v room)
        (Ty.encode coding cfg ty depth v pos enc)) :
    Sound limits (Ty.reach limits coding cfg ty depth) (Ty.encode coding cfg ty depth) :=
  ⟨(keeps_respected cfg).encode ty depth, fun v pos _ _ => follows v pos⟩

end

section

variable {limits : Limits} {coding : Coding} {cfg : Config}

mutual

/-- Encoding a value follows its traversal. -/
lemma encode_follows : (ty : Ty) → (depth : Nat) → (v : ty.Value) → (pos : Nat) →
    {room : Room} → {enc : Encoder} → Matches limits room enc →
    Follows limits enc (Ty.reach limits coding cfg ty depth v room)
      (Ty.encode coding cfg ty depth v pos enc)
  | .primitive _, _, _, _, _, _, matched => matched.wrote ..
  | .bool, _, _, _, _, _, matched => matched.wrote ..
  | .array element _, depth, v, pos, room, enc, matched => by
    simp only [Ty.reach, Ty.encode]
    split
    · exact matched.wrote ..
    · have sound : Sound limits _ _ := sound_of_follows (encode_follows element depth)
      exact matched.each sound.keeps sound.follows cfg ..
  | .vector element _ _, _, _, _, _, _, matched =>
    matched.vector cfg fun depth => sound_of_follows (encode_follows element depth)
  | .string _ _, _, _, _, _, _, matched => matched.string cfg
  | .handle _ _, _, _, _, _, _, matched => matched.handle ..
  | .box inner, _, _, _, _, _, matched =>
    matched.box fun depth => sound_of_follows (encode_follows inner depth)
  | .struct members paddings, depth, v, pos, _, enc, matched =>
    (Quiet.zeroPaddings enc pos paddings).follows
      (encodeMembers_follows members depth v pos (matched.zeroPaddings pos paddings))
  | .table fields, depth, v, pos, room, enc, matched => by
    simp only [Ty.reach, Ty.encode]
    split
    · exact matched.wrote ..
    have headed := matched.write pos (vectorHeader (fields.count v) allocPresent)
    refine (Quiet.write ..).follows (headed.allocThen (fun base enc => ?_) ?_)
    · exact (keeps_respected cfg).deeper [] fun depth enc =>
        (keeps_respected cfg).encodeFields fields depth v base enc
    · exact fun base room enc matched =>
        matched.deeper fun depth => encodeFields_follows fields depth v base matched

lemma encodeMembers_follows : (members : Members) → (depth : Nat) → (v : members.Value) →
    (pos : Nat) → {room : Room} → {enc : Encoder} → Matches limits room enc →
    Follows limits enc (Members.reach limits coding cfg members depth v room)
      (Members.encode coding cfg members depth v pos enc)
  | .nil, _, _, _, _, _, matched => matched.go
  | .cons ty _ rest, depth, v, pos, _, _, matched =>
    (encode_follows ty depth v.1 pos matched).andThen
      ((keeps_respected cfg).encode ty depth v.1 pos _).handleCapacity
      ((keeps_respected cfg).encodeMembers rest depth v.2 _ _)
      fun _ matched => encodeMembers_follows rest depth v.2 _ matched

lemma encodeFields_follows : (fields : Fields) → (depth : Nat) → (v : fields.Value) →
    (pos : Nat) → {room : Room} → {enc : Encoder} → Matches limits room enc →
    Follows limits enc (Fields.reach limits coding cfg fields depth v room)
      (Fields.encode coding cfg fields depth v pos enc)
  | .nil, _, _, pos, _, _, matched => matched.unsetEach _ pos
  | .reserved _, _, none, _, _, _, matched => matched.go
  | .reserved rest, depth, some v, _, _, _, matched =>
    (Quiet.write ..).follows (encodeFields_follows rest depth v.2 _ (matched.write ..))
  | .field _ _, _, none, _, _, _, matched => matched.go
  | .field ty rest, depth, some v, _, _, _, matched =>
    (matched.envelope (sound_of_follows (encode_follows ty depth))).andThen
      ((keeps_respected cfg).envelope ty.handles
        ((keeps_respected cfg).encode ty depth)).handleCapacity
      ((keeps_respected cfg).encodeFields rest depth v.2 _ _)
      fun _ matched => encodeFields_follows rest depth v.2 _ matched

end

end

/-! ## The handles of the value -/

/-- At most these handles were released, in this order. -/
def Takes (handles : List Handle) (before after : Encoder) : Prop :=
  ∃ taken, taken.Sublist handles ∧ after.released = before.released ++ taken

section

variable {coding : Coding} {cfg : Config} {before middle after enc : Encoder}
  {handles more : List Handle} {α : Type} {optional : Bool}

lemma Takes.trans (first : Takes handles before middle) (second : Takes more middle after) :
    Takes (handles ++ more) before after := by
  obtain ⟨taken, within, released⟩ := first
  obtain ⟨taken', within', released'⟩ := second
  exact ⟨taken ++ taken', within.append within', by rw [released', released, append_assoc]⟩

lemma Quiet.takes (quiet : Quiet before after) (handles : List Handle) : Takes handles before after :=
  ⟨[], nil_sublist _, by rw [quiet.released, append_nil]⟩

private lemma takes_handle (enc : Encoder) (handle : Handle)
    (attrs : HandleAttributes) (pos : Nat) (optional : Bool) :
    Takes ([handle].filter fun handle => handle != 0) enc
      (enc.encodeHandle cfg handle attrs pos optional) := by
  unfold encodeHandle
  by_cases absent : handle = 0
  · rw [if_pos absent]
    split
    · exact (Quiet.write ..).takes _
    · exact (Quiet.setError ..).takes _
  · have present : ([handle].filter fun handle => handle != 0) = [handle] := by simp [absent]
    rw [if_neg absent, present]
    have taken : ∀ {after : Encoder}, after.released = enc.released ++ [handle] →
        Takes [handle] enc after := fun same => ⟨[handle], List.Sublist.refl _, same⟩
    split
    · exact taken rfl
    split
    · exact taken rfl
    · split <;> exact taken rfl

/-- Encoding releases handles of the value only, each once. -/
private lemma takes_respected (cfg : Config) : Respected cfg Takes where
  refl enc := (Quiet.refl enc).takes []
  trans := Takes.trans
  weaken := fun ⟨taken, within, released⟩ =>
    ⟨taken, within.trans (nil_sublist _), released⟩
  write enc pos bytes := (Quiet.write enc pos bytes).takes []
  alloc enc size := (Quiet.alloc enc size).takes []
  memcpy enc bytes := (Quiet.memcpy enc bytes).takes []
  setError enc error := (Quiet.setError enc error).takes []
  handle := takes_handle

end

/-! ## WireEncode -/

/-- Every handle of the value is in one place: the value still owns it, or it is
returned, or, if encoding fails, it is closed. -/
structure Conserved (all : List Handle) (outcome : Outcome) (after : Encoder) : Prop where
  kept : ∃ kept, all.Perm (after.released ++ kept)
  placed : after.released.Perm (outcome.returned ++ after.closed)
  closed : (∃ iovecs handles, outcome = .ok iovecs handles) → after.closed = []

/-- The present handles that `WireEncode` of a value reaches before its first
error other than a full handle array. -/
def wireReach (limits : Limits) (coding : Coding) (cfg : Config) (ty : Ty) (v : ty.Value) :
    List Handle :=
  ((Room.alloc limits ty.inlineSize {}).andThen (Ty.reach limits coding cfg ty 0 v)).handles

lemma Takes.kept (takes : Takes handles before after) (fresh : before.released = []) :
    ∃ kept, handles.Perm (after.released ++ kept) := by
  obtain ⟨_, within, released⟩ := takes
  obtain ⟨kept, split⟩ := within.exists_perm_append
  rw [fresh] at released
  exact ⟨kept, released ▸ split⟩

lemma conserved_of_error (failed : enc.hasError = true) (kept : ∃ kept, all.Perm (enc.released ++ kept)) :
    Conserved all enc.finish.1 enc.finish.2 ↔ Balanced enc := by
  obtain ⟨_, finished⟩ := Encoder.finish_of_error failed
  rw [finished]
  constructor
  · intro conserved
    have placed := conserved.placed
    simp only [Outcome.returned, nil_append, checkSize_released] at placed
    exact placed.trans perm_append_comm
  · intro balanced
    refine ⟨?_, ?_, ?_⟩
    · simpa only [checkSize_released] using kept
    · simp only [Outcome.returned, nil_append, checkSize_released]
      exact balanced.trans perm_append_comm
    · rintro ⟨_, _, impossible⟩
      cases impossible

private lemma conserved_of_sound (matched : Matches limits room enc)
    (kept : ∃ kept, all.Perm (enc.released ++ kept)) : Conserved all enc.finish.1 enc.finish.2 := by
  rw [Encoder.finish_of_sound matched.sound]
  exact ⟨kept, matched.balanced, fun _ => matched.closed⟩

lemma Leaky.not_balanced (leaky : Leaky enc) : ¬Balanced enc := by
  intro balanced
  have lengths := balanced.length_eq
  rw [length_append] at lengths
  unfold Leaky at leaky
  omega

private lemma matches_fresh : Matches limits {} { limits with memory, handleCapacity } :=
  ⟨hasError_eq_false.mpr ⟨rfl, Nat.zero_le _⟩, List.Perm.refl [], rfl, Nat.zero_le _,
    rfl, rfl, rfl, rfl, rfl, rfl⟩

/-- What `WireEncode` does with a fresh encoder. -/
lemma wireEncode_follows (coding : Coding) (cfg : Config) (v : ty.Value)
    (memory : Memory) (limits : Limits) (handleCapacity : Nat) :
    Follows limits { limits with memory, handleCapacity }
      ((Room.alloc limits ty.inlineSize {}).andThen (Ty.reach limits coding cfg ty 0 v))
      (Encoder.allocThen { limits with memory, handleCapacity } ty.inlineSize
        (Ty.encode coding cfg ty 0 v)) :=
  (matches_fresh).allocThen
    ((keeps_respected cfg).encode ty 0 v)
    fun pos _ _ matched => encode_follows ty 0 v pos matched

lemma wireEncode_keeps (coding : Coding) (cfg : Config) (v : ty.Value) (enc : Encoder) :
    Keeps enc (enc.allocThen ty.inlineSize (Ty.encode coding cfg ty 0 v)) :=
  (keeps_respected cfg).allocThen [] ((keeps_respected cfg).encode ty 0 v)

/-- `WireEncode` conserves handles exactly if the present handles that it reaches
before another error fit in the handle array. -/
theorem wireEncode_conserves_iff (coding : Coding) (cfg : Config) (ty : Ty) (v : ty.Value)
    (memory : Memory) (limits : Limits) (handleCapacity : Nat) :
    let outcome := wireEncode coding cfg ty v { limits with memory, handleCapacity }
    Conserved (Ty.handles ty v) outcome.1 outcome.2 ↔
      (wireReach limits coding cfg ty v).length ≤ handleCapacity := by
  have takes := takes_respected cfg
  have kept := (takes.allocThen _ (takes.encode ty 0 v) : Takes _
    { limits with memory, handleCapacity }
      (Encoder.allocThen _ ty.inlineSize (Ty.encode coding cfg ty 0 v))).kept rfl
  have follows := wireEncode_follows coding cfg v memory limits handleCapacity
  have capacity := (wireEncode_keeps coding cfg v
    { limits with memory, handleCapacity }).handleCapacity
  cases follows with
  | going _ _ matched count =>
    have within := matched.within
    rw [count, capacity] at within
    rw [length_nil, Nat.zero_add] at within
    exact iff_of_true (conserved_of_sound matched kept) within
  | stopped _ fits error balanced =>
    rw [length_nil, Nat.zero_add] at fits
    exact iff_of_true ((conserved_of_error error kept).mpr balanced) fits
  | leaked beyond error leaky =>
    rw [length_nil, Nat.zero_add] at beyond
    refine iff_of_false (fun conserved => ?_) (Nat.not_le.mpr beyond)
    exact leaky.not_balanced ((conserved_of_error error kept).mp conserved)

/-- One handle too many: it is taken from the value and then neither closed nor
returned. -/
theorem wireEncode_drops_handle :
    let ty : Ty := .struct (.cons (.handle ⟨0, 0⟩ false) 0 .nil) []
    let coding : Coding := ⟨false, 2, fun _ => true, rfl⟩
    let outcome := wireEncode coding { processHandle := fun _ _ => none } ty ((7 : Handle), ())
      { iovecCapacity := 1, handleCapacity := 0, capacity := 8, memory := fun _ => 0 }
    outcome.1 = .error .tooManyHandlesConsumed ∧ outcome.2.released = [7] ∧
      outcome.2.closed = [] ∧ ¬Conserved (Ty.handles ty ((7 : Handle), ())) outcome.1 outcome.2 := by
  refine ⟨by decide, by decide, by decide, fun conserved => ?_⟩
  have lengths := conserved.placed.length_eq
  revert lengths
  decide

/-! ## The returned handles -/

/-- The handle array holds handles, and no more than it has room for. -/
structure Fair (capacity : Nat) (enc : Encoder) : Prop where
  same : enc.handleCapacity = capacity
  within : enc.handles.length ≤ capacity
  present : ∀ handle ∈ enc.handles, handle ≠ 0

lemma Quiet.fair {capacity : Nat} (quiet : Quiet before after)
    (fair : Fair capacity before) : Fair capacity after := by
  refine ⟨quiet.handleCapacity.trans fair.same, ?_, ?_⟩ <;> rw [quiet.handles]
  · exact fair.within
  · exact fair.present

private lemma fair_respected (cfg : Config) (capacity : Nat) :
    Respected cfg fun _ before after => Fair capacity before → Fair capacity after where
  refl _ := id
  trans := fun first second => second ∘ first
  weaken := id
  write enc pos bytes := (Quiet.write enc pos bytes).fair
  alloc enc size := (Quiet.alloc enc size).fair
  memcpy enc bytes := (Quiet.memcpy enc bytes).fair
  setError enc error := (Quiet.setError enc error).fair
  handle enc handle attrs pos optional := by
    intro fair
    unfold encodeHandle
    split
    · split <;> exact { fair with }
    rename_i present
    split
    · exact { fair with }
    split
    · exact { fair with }
    have stored : Fair capacity (((enc.release handle).write pos
        (littleEndian 4 handlePresent)).storeHandle handle) := by
      refine ⟨fair.same, ?_, ?_⟩
      · have full := fair.same
        simp only [Encoder.storeHandle, Encoder.write, Encoder.release, length_append,
          length_cons, length_nil]
        omega
      · intro other mem
        rcases mem_append.mp mem with old | new
        · exact fair.present other old
        · rw [mem_singleton.mp new]
          exact present
    split
    · exact { stored with }
    · exact stored

lemma wireEncode_handles {limits : Limits}
    (encoded : wireEncode coding cfg ty v { limits with memory, handleCapacity } =
      (.ok iovecs handles, after)) : handles.length ≤ handleCapacity ∧ ∀ handle ∈ handles, handle ≠ 0 := by
  obtain ⟨-, -, rfl, -⟩ := Encoder.finish_eq_ok encoded
  have kept := fair_respected cfg handleCapacity
  have fair : Fair handleCapacity (Encoder.allocThen { limits with memory, handleCapacity }
      ty.inlineSize (Ty.encode coding cfg ty 0 v)) :=
    kept.allocThen [] (kept.encode ty 0 v) ⟨rfl, Nat.zero_le _, nofun⟩
  exact ⟨fair.within, fair.present⟩

end FuchsiaSdk.WireEncodeHandles
