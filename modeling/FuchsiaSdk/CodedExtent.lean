import FuchsiaSdk.CodedDecodeHandles
import FuchsiaSdk.Tiling

/-! Where a walk over a coding table goes in the buffer: the objects out of line
are visited one after the other from `next_out_of_line_` on, nothing is written
outside the object and these, and the handles that are counted are bounded by
the bytes that were walked over. -/
namespace FuchsiaSdk.CodedExtent
open Memory WireFormat CodingTable CodedDecoder Tiling
open CodedDecodeHandles (Compositional Covers PayloadCovers Range visitHandle_go
  convertEnvelope_memory)

/-- The object out of line that a visit is for. -/
def extent : Visit → Option Extent
  | .object pos size => some ⟨pos, size⟩
  | .handle _ _ => none
  | .unknown _ => none

def extents (visits : List Visit) : List Extent := visits.filterMap extent

/-- The handles that a visit counts. -/
def handles : Visit → Nat
  | .object _ _ => 0
  | .handle _ _ => 1
  | .unknown envelope => envelope.numHandles

def handleCount (visits : List Visit) : Nat := (visits.map handles).sum

@[simp] lemma extents_append :
    extents (visits ++ more) = extents visits ++ extents more := List.filterMap_append

@[simp] lemma handleCount_append (visits more : List Visit) :
    handleCount (visits ++ more) = handleCount visits + handleCount more := by
  simp [handleCount]

lemma handleCount_mono {visits more : List Visit} (grown : visits <+: more) :
    handleCount visits ≤ handleCount more := by
  obtain ⟨_, rfl⟩ := grown
  rw [handleCount_append]
  exact Nat.le_add_right ..

/-- A state between two objects. -/
structure Placed (dec : Decoder) : Prop where
  inside : dec.next ≤ dec.size
  aligned : 8 ∣ dec.next

/-- What was visited between two states, for a range of the object and the bytes
out of line. An unknown envelope has 16 bits for its number of handles, so 8 bytes
count fewer than 8 * 8192 of them. -/
structure Visited (before after : Decoder) (length : Nat) (new : List Visit) : Prop where
  visits : after.visits = before.visits ++ new
  tiles : Tiles before.memory before.next (extents new) after.next
  bound : handleCount new ≤ 8192 * (length + (after.next - before.next))
  index : after.index % 2 ^ 32 = (before.index + handleCount new) % 2 ^ 32

/-- A walk over the bytes of a range, which may continue out of line. -/
structure Spans (before after : Decoder) (start stop : Nat) : Prop where
  placed : Placed after
  size : after.size = before.size
  frame : ∀ addr, addr < start ∨ stop ≤ addr →
    addr < before.next ∨ after.next ≤ addr → after.memory addr = before.memory addr
  visited : ∃ new, Visited before after (stop - start) new

section

variable {cfg : Config} {before middle after dec : Decoder} {new more : List Visit}
  {start stop pos ptr length : Nat}

lemma Spans.next (spans : Spans before after start stop) : before.next ≤ after.next := by
  obtain ⟨_, visited⟩ := spans.visited
  exact visited.tiles.le

lemma Visited.refl (dec : Decoder) (length : Nat) : Visited dec dec length [] where
  visits := (List.append_nil _).symm
  tiles := rfl
  bound := Nat.zero_le _
  index := rfl

lemma Spans.refl (placed : Placed dec) (start stop : Nat) : Spans dec dec start stop :=
  ⟨placed, rfl, fun _ _ _ => rfl, [], .refl dec _⟩

lemma Visited.trans (first : Visited before middle length new) (second : Visited middle after length' more)
    (same : AgreeOn middle.next after.next middle.memory before.memory) :
    Visited before after (length + length') (new ++ more) := by
  have next := first.tiles.le
  have next' := second.tiles.le
  have bound := first.bound
  have bound' := second.bound
  have index := first.index
  have index' := second.index
  refine ⟨?_, ?_, ?_, ?_⟩
  · rw [second.visits, first.visits, List.append_assoc]
  · rw [extents_append]
    exact first.tiles.append (second.tiles.congr same)
  · rw [handleCount_append]
    omega
  · rw [handleCount_append]
    omega

lemma Spans.append (first : Spans before middle start pos)
    (second : Spans middle after pos stop) (above : start ≤ pos)
    (ordered : pos ≤ stop) (below : stop ≤ before.next) : Spans before after start stop := by
  have next := first.next
  have next' := second.next
  obtain ⟨new, visited⟩ := first.visited
  obtain ⟨more, visited'⟩ := second.visited
  refine ⟨second.placed, second.size.trans first.size, ?_, new ++ more, ?_⟩
  · intro addr _ _
    rw [second.frame addr (by omega) (by omega), first.frame addr (by omega) (by omega)]
  · have both := visited.trans visited' fun addr low high =>
      first.frame addr (by omega) (by omega)
    rwa [show pos - start + (stop - pos) = stop - start by omega] at both

lemma Spans.widen (spans : Spans before after start stop)
    (above : start' ≤ start) (below : stop ≤ stop') : Spans before after start' stop' := by
  obtain ⟨new, visited⟩ := spans.visited
  have bound := visited.bound
  refine ⟨spans.placed, spans.size, fun addr outside => spans.frame addr (by omega), new,
    { visited with bound := ?_ }⟩
  omega

/-! ## Pointers, handles and unknown envelopes -/

/-- The bytes behind an object that `VisitPointer` has accepted. -/
lemma Fits.zeroPadded (fits : Fits dec cfg pointee ptr size next) (aligned : 8 ∣ dec.next) :
    Extent.ZeroPadded dec.memory ⟨dec.next, size⟩ := by
  have stop := addOutOfLine_eq_align fits.added
  intro addr low high
  simp only [Extent.stop, ← stop] at low high
  have uneven : size % 8 ≠ 0 := by
    intro _
    rw [stop, align_of_dvd (by omega)] at high
    omega
  have zero := fits.padded uneven
  rw [List.any_eq_false] at zero
  have loaded := getElem?_load dec.memory (dec.next + size) (next - dec.next - size)
    (addr - (dec.next + size))
  rw [if_pos (by omega), Nat.add_sub_cancel' low] at loaded
  simpa using zero _ (List.mem_of_getElem? loaded)

lemma place_memory (mode : Mode) (outside : addr < ptr ∨ ptr + 8 ≤ addr) :
    (dec.place mode ptr size next).memory addr = dec.memory addr := by
  cases mode with
  | decode => exact store_outside (by simpa using outside)
  | validate => rfl

@[simp] lemma place_next :
    (dec.place mode ptr size next).next = next := rfl

@[simp] lemma place_size :
    (dec.place mode ptr size next).size = dec.size := by cases mode <;> rfl

lemma visited_place {mode : Mode} {pointee : PointeeType} {size next : Nat}
    (fits : Fits dec cfg pointee ptr size next) (aligned : 8 ∣ dec.next) :
    Visited dec (dec.place mode ptr size next) 0 [.object dec.next size] where
  visits := by cases mode <;> rfl
  tiles := ⟨rfl, Fits.zeroPadded fits aligned, (addOutOfLine_eq_align fits.added).symm⟩
  bound := Nat.zero_le _
  index := by cases mode <;> rfl

lemma Placed.place (fits : Fits dec cfg pointee ptr size next) : Placed (dec.place mode ptr size next) where
  inside := by
    rw [place_size]
    exact fits.inside
  aligned := by
    rw [addOutOfLine_eq_align fits.added]
    exact dvd_align _

/-- An object out of line and the pointer to it. -/
lemma Spans.refer {size next : Nat} (placed : Placed before) (fits : Fits before cfg pointee ptr size next)
    (below : ptr + 8 ≤ before.next)
    (spans : Spans (before.place mode ptr size next) after before.next (before.next + size)) :
    Spans before after ptr (ptr + 8) := by
  have room := le_addOutOfLine fits.added
  have later : next ≤ after.next := spans.next
  obtain ⟨new, visited⟩ := spans.visited
  refine ⟨spans.placed, spans.size.trans (place_size ..), ?_, [.object before.next size] ++ new, ?_⟩
  · intro addr outside _
    rw [spans.frame addr (by omega) (by rw [place_next]; omega), place_memory mode outside]
  · have both := (visited_place fits placed.aligned).trans visited fun addr low high =>
      place_memory mode (.inr (by rw [place_next] at low; omega))
    refine { both with bound := ?_ }
    -- The bytes of the object are among those out of line.
    have bound := visited.bound
    have added := handleCount_append [.object before.next size] new
    have none : handleCount [.object before.next size] = 0 := rfl
    rw [place_next] at bound
    omega

private lemma spans_handle (placed : Placed dec) (gone : dec.visitHandle cfg pos attrs = .go after) :
    Spans dec after pos (pos + 4) := by
  cases mode : cfg.mode with
  | decode =>
    obtain ⟨handle, _, _, rfl⟩ := visitHandle_go mode gone
    refine ⟨⟨placed.inside, placed.aligned⟩, rfl, fun addr outside _ => ?_,
      [.handle attrs dec.index], ⟨rfl, rfl, ?_, rfl⟩⟩
    · exact store_outside (by simpa using outside)
    · exact Nat.le_trans (show 1 ≤ 8192 * 4 by omega) (Nat.mul_le_mul_left _ (by omega))
  | validate =>
    unfold Decoder.visitHandle at gone
    rw [mode] at gone
    split at gone
    · cases gone
    split at gone <;> cases gone
    refine ⟨⟨placed.inside, placed.aligned⟩, rfl, fun _ _ _ => rfl,
      [.handle attrs dec.index], ⟨rfl, rfl, ?_, Nat.mod_mod ..⟩⟩
    exact Nat.le_trans (show 1 ≤ 8192 * 4 by omega) (Nat.mul_le_mul_left _ (by omega))

/-- What an unknown envelope changes. -/
lemma unknownHandles_go (gone : dec.unknownHandles leave count = .go after) :
    after.size = dec.size ∧ after.next = dec.next ∧ after.memory = dec.memory ∧
      after.visits = dec.visits ∧ after.index = dec.index + count := by
  unfold Decoder.unknownHandles at gone
  split at gone
  · cases gone
    exact ⟨rfl, rfl, rfl, rfl, by omega⟩
  split at gone
  · cases gone
  split at gone
  · cases gone
  split at gone
  · cases gone
  · split at gone <;> cases gone
    cases leave <;> exact ⟨rfl, rfl, rfl, rfl, rfl⟩

private lemma spans_unknown (placed : Placed dec) (small : envelope.numHandles < 2 ^ 16)
    (gone : dec.visitUnknownEnvelope cfg envelope pos isResource = .go after) :
    Spans dec after pos (pos + 8) := by
  have bound : handleCount [.unknown envelope] ≤
      8192 * (pos + 8 - pos + (dec.next - dec.next)) := by
    change envelope.numHandles ≤ _
    omega
  unfold Decoder.visitUnknownEnvelope at gone
  simp only at gone
  split at gone
  · cases gone
    exact ⟨⟨placed.inside, placed.aligned⟩, rfl, fun _ _ _ => rfl,
      [.unknown envelope], ⟨rfl, rfl, bound, Nat.mod_mod ..⟩⟩
  split at gone
  · split at gone
    · cases gone
    rename_i converted
    obtain ⟨_, eight, rfl⟩ := convertEnvelope_memory converted
    obtain ⟨size, next, memory, visits, index⟩ := unknownHandles_go gone
    refine ⟨⟨?_, ?_⟩, size, ?_, [.unknown envelope], ⟨visits, next.symm, ?_, ?_⟩⟩
    · rw [next, size]
      exact placed.inside
    · rw [next]
      exact placed.aligned
    · intro addr _ _
      rw [memory]
      exact store_outside (by rwa [eight])
    · rw [next]
      exact bound
    · rw [index]
      rfl
  · obtain ⟨size, next, memory, visits, index⟩ := unknownHandles_go gone
    refine ⟨⟨?_, ?_⟩, size, ?_, [.unknown envelope], ⟨visits, next.symm, ?_, ?_⟩⟩
    · rw [next, size]
      exact placed.inside
    · rw [next]
      exact placed.aligned
    · intro addr _ _
      rw [memory]
      rfl
    · rw [next]
      exact bound
    · rw [index]
      rfl

end

/-! ## Walks -/

/-- A walk that goes on has spanned the object at the position and what is behind
it out of line. -/
def Spanning (size : Nat) (walk : Nat → Decoder → Outcome) : Prop :=
  ∀ pos before after, Placed before → pos + size ≤ before.next →
    walk pos before = .go after → Spans before after pos (pos + size)

/-- A payload type whose walk spans its objects. -/
def PayloadSpanning (payload : Payload) : Prop :=
  ∀ depth, Spanning payload.size (payload.walk depth)

/-- The ranges that a walk spans, whatever is read from them. -/
abbrev Spanned : Range := fun before after start stop _ => Spans before after start stop

lemma compositional_spans : Compositional cfg 0 Placed Spanned where
  good spans := spans.placed
  next spans := spans.next
  frame spans := spans.frame
  idle placed _ := .refl placed ..
  append := Spans.append
  widen := Spans.widen
  congr spans _ := spans
  place _ fits := .place fits
  refer placed below fits spans := .refer placed fits below spans
  overwrite {before ptr size _ _} placed below fits taken := by
    have room := le_addOutOfLine fits.added
    have pointed := @visited_place cfg before ptr cfg.mode .envelope _ _ fits placed.aligned
    obtain ⟨new, counted⟩ := taken.visited
    refine ⟨taken.placed, taken.size.trans (place_size ..), ?_, [.object before.next size] ++ new, ?_⟩
    · intro addr outside _
      rw [taken.frame addr outside (by rw [place_next] at ⊢; omega), place_memory _ outside]
    · have both := pointed.trans counted fun addr low high =>
        place_memory _ (.inr (by rw [place_next] at low; omega))
      rwa [Nat.zero_add] at both
  handle placed gone := spans_handle placed gone
  unknown placed _ small gone := spans_unknown placed small gone

lemma spanning_go : Spanning size fun _ dec => .go dec := by
  intro _ _ _ placed _ gone
  cases gone
  exact .refl placed ..

lemma spanning_envelope (spanning : ∀ known ∈ payload, PayloadSpanning known) :
    Spanning 8 (walkEnvelope cfg payload isResource depth) := by
  have related : Option.Rel (PayloadCovers Placed Spanned) payload
      (payload.map fun known => ⟨known.size, fun _ _ => []⟩) := by
    cases payload with
    | none => exact .none
    | some known => exact .some ⟨rfl, spanning known rfl⟩
  exact (compositional_spans).envelope related depth

lemma spanning_type (ty : CodedType) (formed : ty.WellFormed) (depth : Nat) :
    Spanning ty.typeSize (CodedType.walk cfg ty depth) :=
  (compositional_spans).ofType ty formed depth

end FuchsiaSdk.CodedExtent
