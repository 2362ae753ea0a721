import FuchsiaSdk.CodedDecoder
import Mathlib.Data.List.Perm.Basic

/-! What `fidl_decode_impl` does with the incoming handles. `FidlEnsureHandleRights`
closes or replaces the handle in its field, while an error closes the values of the
handle array: a refused handle is closed twice, and a handle that was replaced
before an error stays open. Otherwise every handle has one owner at the end. -/
namespace FuchsiaSdk.CodedDecodeHandles
open Memory WireFormat CodingTable CodedDecoder
open List hiding after count

/-! ## The handles of a decoded object -/

section

variable (base : Nat)

def eachHandles (view : Memory → Nat → List Handle) (stride : Nat) (memory : Memory) :
    (rounds pos : Nat) → List Handle
  | 0, _ => []
  | rounds + 1, pos =>
    view memory pos ++ eachHandles view stride memory rounds (pos + stride)

/-- What a pointer refers to. -/
def pointerHandles (view : Memory → Nat → List Handle) (memory : Memory) (pointer : Nat) :
    List Handle :=
  if word memory pointer 8 = 0 then [] else view memory (word memory pointer 8 - base)

/-- The handles of a type that an envelope can hold. -/
structure PayloadView where
  size : Nat
  view : Memory → Nat → List Handle

/-- Nothing is read from an envelope without a payload type. -/
def envelopeHandles (payload : Option PayloadView) (memory : Memory) (pos : Nat) :
    List Handle :=
  match payload with
  | none => []
  | some payload =>
    if payload.size ≤ inliningSizeThreshold then
      if word memory pos 8 = 0 then [] else payload.view memory pos
    else pointerHandles base payload.view memory pos

def envelopesHandles (memory : Memory) :
    (count ordinal : Nat) → (fields : List (Nat × PayloadView)) → (pos : Nat) → List Handle
  | 0, _, _, _ => []
  | count + 1, ordinal, fields, pos =>
    envelopeHandles base (nextField ordinal fields).1 memory pos ++
      envelopesHandles memory count (ordinal + 1) (nextField ordinal fields).2 (pos + 8)

def unionHandles (fields : List (Option PayloadView)) (memory : Memory) (pos : Nat) :
    List Handle :=
  if word memory pos 8 = 0 then []
  else envelopeHandles base fields[word memory pos 8 - 1]?.join memory (pos + 8)

def tableHandles (fields : List (Nat × PayloadView)) (memory : Memory) (pos : Nat) :
    List Handle :=
  pointerHandles base (fun memory => envelopesHandles base memory (word memory pos 8) 1 fields)
    memory (pos + 8)

def vectorHandles (view : Memory → Nat → List Handle) (stride : Nat) (memory : Memory)
    (pos : Nat) : List Handle :=
  pointerHandles base (fun memory => eachHandles view stride memory
    (rounds stride (word memory pos 8 * stride))) memory (pos + 8)

def handleAt (memory : Memory) (pos : Nat) : List Handle :=
  if word memory pos 4 = 0 then [] else [UInt32.ofNat (word memory pos 4)]

mutual

/-- The handles in the handle fields of the object at a position of a decoded
buffer. -/
def CodedType.handlesIn : CodedType → Memory → (pos : Nat) → List Handle
  | .struct _ _ elements, memory, pos => Elements.handlesIn elements memory pos
  | .structPointer _ _ elements, memory, pos =>
    pointerHandles base (Elements.handlesIn elements) memory pos
  | .table _ fields, memory, pos =>
    tableHandles base (TableFields.views fields) memory pos
  | .xunion _ _ _ fields, memory, pos =>
    unionHandles base (UnionFields.views fields) memory pos
  | .array elementSize arraySize element, memory, pos =>
    eachHandles (CodedType.handlesIn element) elementSize memory (rounds elementSize arraySize)
      pos
  | .handle _ _, memory, pos => handleAt memory pos
  | .vector _ _ elementSize element, memory, pos =>
    vectorHandles base (CodedType.handlesIn element) elementSize memory pos
  | _, _, _ => []

def Elements.handlesIn : Elements → Memory → (pos : Nat) → List Handle
  | .nil, _, _ => []
  | .field off ty rest, memory, pos =>
    CodedType.handlesIn ty memory (pos + off) ++ Elements.handlesIn rest memory pos
  | .padding _ rest, memory, pos => Elements.handlesIn rest memory pos

def TableFields.views : TableFields → List (Nat × PayloadView)
  | .nil => []
  | .field ordinal ty rest =>
    (ordinal, ⟨ty.typeSize, CodedType.handlesIn ty⟩) :: TableFields.views rest

def UnionFields.views : UnionFields → List (Option PayloadView)
  | .nil => []
  | .reserved rest => none :: UnionFields.views rest
  | .field ty rest => some ⟨ty.typeSize, CodedType.handlesIn ty⟩ :: UnionFields.views rest

end

end

/-- Every incoming handle, or what replaced it, has been disposed of once: after
success it is in one handle field, was closed with the unknown handles or is left
for the caller; after an error it was closed. -/
def Conserves (ty : CodedType) : Outcome → Prop
  | .go dec =>
    dec.current.Perm
      (CodedType.handlesIn dec.base ty dec.memory 0 ++ dec.closed ++ dec.left)
  | .exit _ dec => dec.current.Perm dec.closed
  | .abort _ => True

/-! ## When handles are conserved -/

/-- The outcomes of the handle checks that a decoder was to make. -/
def Checks (cfg : Config) (dec : Decoder) (condition : HandleCheck → Prop) : Prop :=
  ∀ attrs i, Visit.handle attrs i ∈ dec.visits → condition (cfg.processHandle attrs i)

section

variable {cfg : Config} {dec : Decoder}

/-! ## What a walk does with handles -/

/-- The state as long as no handle was refused. -/
structure Inv (cfg : Config) (dec : Decoder) : Prop where
  count : dec.numHandles = dec.handles.length
  length : dec.current.length = dec.handles.length
  ahead : dec.current.drop dec.index = dec.handles.drop dec.index
  within : dec.index ≤ dec.handles.length
  closed : dec.closed = []
  passed : Checks cfg dec HandleCheck.Passes
  before : ∀ attrs i, Visit.handle attrs i ∈ dec.visits → i < dec.index ∧ dec.handles.getD i 0 ≠ 0
  replaced : ∀ attrs i successor, Visit.handle attrs i ∈ dec.visits →
    cfg.processHandle attrs i = .replaced successor →
    dec.current[i]? = some successor
  unchanged : Checks cfg dec (· = .unchanged) → dec.current = dec.handles

/-- The state after a handle was refused and closed. -/
structure Refused (cfg : Config) (dec : Decoder) : Prop where
  length : dec.current.length = dec.handles.length
  closed : dec.closed ≠ []
  refused : ¬ Checks cfg dec HandleCheck.Passes

/-- How a walk ends. -/
def Ends (cfg : Config) : Outcome → Prop
  | .go dec => Inv cfg dec
  | .exit _ dec => Inv cfg dec ∨ Refused cfg dec
  | .abort dec => Inv cfg dec

/-- The next handles are taken without a check. -/
lemma Inv.skip {after : Decoder} {taken : Nat} (inv : Inv cfg dec)
    (visits : ∀ attrs i, Visit.handle attrs i ∈ after.visits ↔
      Visit.handle attrs i ∈ dec.visits) (handles : after.handles = dec.handles)
    (count : after.numHandles = dec.numHandles) (current : after.current = dec.current)
    (closed : after.closed = dec.closed) (i : after.index = dec.index + taken)
    (enough : dec.index + taken ≤ dec.numHandles) : Inv cfg after := by
  refine ⟨?_, ?_, ?_, ?_, ?_, ?_, ?_, ?_, ?_⟩
  · rw [count, handles, inv.count]
  · rw [current, handles, inv.length]
  · rw [current, handles, i, ← drop_drop, inv.ahead, drop_drop]
  · rw [i, handles, ← inv.count]
    exact enough
  · rw [closed, inv.closed]
  · exact fun attrs pos visited => inv.passed _ _ ((visits ..).mp visited)
  · intro attrs pos visited
    obtain ⟨earlier, present⟩ := inv.before attrs pos ((visits ..).mp visited)
    exact ⟨by omega, by rwa [handles]⟩
  · intro attrs pos successor visited check
    rw [current]
    exact inv.replaced attrs pos successor ((visits ..).mp visited) check
  · intro all
    rw [current, handles]
    exact inv.unchanged fun attrs pos visited => all _ _ ((visits ..).mpr visited)

/-- Neither the memory nor a visit without a check matters. -/
lemma Inv.visit (inv : Inv cfg dec) (visit : Visit)
    (other : ∀ attrs i, visit ≠ .handle attrs i)
    (visits : after.visits = dec.visits ++ [visit]) (handles : after.handles = dec.handles)
    (count : after.numHandles = dec.numHandles) (current : after.current = dec.current)
    (closed : after.closed = dec.closed) (i : after.index = dec.index) : Inv cfg after := by
  have none : after.index = dec.index + 0 := i
  refine inv.skip (fun attrs pos => ?_) handles count current closed none
    (inv.count ▸ inv.within)
  simp [visits, (other attrs pos).symm]

lemma mem_visit : Visit.handle attrs i ∈ (dec.visit (.handle required pos)).visits ↔
      Visit.handle attrs i ∈ dec.visits ∨ attrs = required ∧ i = pos := by
  simp [Decoder.visit]

lemma getElem?_of_getD_ne {handles : List Handle} (live : handles.getD i 0 ≠ 0) :
    i < handles.length ∧ handles[i]? = some (handles.getD i 0) := by
  by_cases below : i < handles.length
  · simp [getD, below]
  · simp [getD, getElem?_eq_none (Nat.not_lt.mp below)] at live

/-- A handle that passes the check, perhaps replaced. -/
lemma Inv.storeHandle (inv : Inv cfg dec) (pos : Nat)
    (present : dec.handles.getD dec.index 0 ≠ 0)
    (check : cfg.processHandle attrs dec.index =
        .unchanged ∧ dec.handles[dec.index]? = some handle ∨
      cfg.processHandle attrs dec.index = .replaced handle) :
    Inv cfg ((dec.visit (.handle attrs dec.index)).storeHandle pos handle) := by
  have length := inv.length
  obtain ⟨below, -⟩ := getElem?_of_getD_ne present
  refine ⟨inv.count, ?_, ?_, below, inv.closed, ?_, ?_, ?_, ?_⟩
  · simp [Decoder.storeHandle, Decoder.visit, length]
  · simp only [Decoder.storeHandle, Decoder.visit]
    rw [drop_set_of_lt (Nat.lt_add_one _), ← drop_drop, inv.ahead, drop_drop]
  · intro attrs i visited
    rcases mem_visit.mp visited with earlier | ⟨rfl, rfl⟩
    · exact inv.passed attrs i earlier
    · rcases check with ⟨same, _⟩ | same <;> simp [HandleCheck.Passes, same]
  · intro attrs i visited
    rcases mem_visit.mp visited with earlier | ⟨rfl, rfl⟩
    · obtain ⟨earlier, live⟩ := inv.before attrs i earlier
      exact ⟨Nat.lt_succ_of_lt earlier, live⟩
    · exact ⟨Nat.lt_succ_self _, present⟩
  · intro attrs i successor visited replaced
    simp only [Decoder.storeHandle, Decoder.visit]
    rcases mem_visit.mp visited with earlier | ⟨rfl, rfl⟩
    · obtain ⟨apart, -⟩ := inv.before attrs i earlier
      rw [getElem?_set_ne (by omega)]
      exact inv.replaced attrs i successor earlier replaced
    · rw [getElem?_set_self (by omega)]
      rcases check with ⟨same, _⟩ | same <;> rw [same] at replaced
      · cases replaced
      · cases replaced
        rfl
  · intro all
    have mine := all attrs dec.index (mem_visit.mpr (.inr ⟨rfl, rfl⟩))
    have unchanged := inv.unchanged fun attrs i earlier =>
      all attrs i (mem_visit.mpr (.inl earlier))
    simp only [Decoder.storeHandle, Decoder.visit]
    rcases check with ⟨_, found⟩ | same
    · obtain ⟨_, rfl⟩ := List.getElem?_eq_some_iff.mp found
      rw [unchanged, set_getElem_self]
    · rw [same] at mine
      cases mine

lemma Inv.visitHandle (inv : Inv cfg dec) (decoding : cfg.mode = .decode)
    (pos : Nat) (attrs : HandleAttributes) : Ends cfg (dec.visitHandle cfg pos attrs) := by
  unfold Decoder.visitHandle
  rw [decoding]
  simp only
  split
  · exact .inl inv
  split
  · exact .inl inv
  split
  · exact .inl inv
  rename_i live
  obtain ⟨-, found⟩ := getElem?_of_getD_ne live
  split <;> rename_i check
  · exact inv.storeHandle pos live (.inl ⟨check, found⟩)
  · exact inv.storeHandle pos live (.inr check)
  · refine .inr ⟨inv.length, ?_, ?_⟩
    · simp [Decoder.refuseHandle]
    · intro passed
      exact passed attrs dec.index (mem_visit.mpr (.inr ⟨rfl, rfl⟩)) _ check

lemma Inv.unknownHandles (inv : Inv cfg dec) (leave : Bool) (count : Nat) :
    Ends cfg (dec.unknownHandles leave count) := by
  unfold Decoder.unknownHandles
  split
  · exact inv
  split
  · exact .inl inv
  split
  · exact .inl inv
  split
  · exact .inl inv
  split
  · exact .inl inv
  rename_i enough
  rw [Nat.not_lt] at enough
  cases leave <;> exact inv.skip (fun _ _ => Iff.rfl) rfl rfl rfl rfl rfl enough

lemma convertEnvelope_memory (converted : dec.convertEnvelope envelope pos = some after) :
    ∃ bytes : List UInt8, bytes.length = 8 ∧ after = dec.assign .decode pos bytes := by
  unfold Decoder.convertEnvelope at converted
  simp only at converted
  split at converted
  · cases converted
    exact ⟨_, by simp, rfl⟩
  · split at converted <;> cases converted
    exact ⟨_, by simp, rfl⟩

lemma Inv.visitUnknownEnvelope (inv : Inv cfg dec) (decoding : cfg.mode = .decode)
    (envelope : EnvelopeCopy) (pos : Nat) (isResource : Bool) :
    Ends cfg (dec.visitUnknownEnvelope cfg envelope pos isResource) := by
  have visited : Inv cfg (dec.visit (.unknown envelope)) :=
    inv.visit (.unknown _) (fun _ _ => nofun) rfl rfl rfl rfl rfl rfl
  unfold Decoder.visitUnknownEnvelope
  rw [decoding]
  simp only
  split
  · split
    · exact visited
    rename_i converted
    obtain ⟨bytes, _, rfl⟩ := convertEnvelope_memory converted
    have same : Inv cfg
        ((dec.visit (.unknown envelope)).assign .decode pos bytes) :=
      inv.visit (.unknown _) (fun _ _ => nofun) rfl rfl rfl rfl rfl rfl
    exact same.unknownHandles ..
  · exact visited.unknownHandles ..

lemma Ends.andThen (ends : Ends cfg outcome)
    (more : ∀ dec, Inv cfg dec → Ends cfg (body dec)) :
    Ends cfg (outcome.andThen body) := by
  cases outcome with
  | go dec => exact more dec ends
  | exit | abort => exact ends

/-- The handle array is not written. -/
lemma lockstep_handles : Lockstep cfg cfg
    fun dec outcome _ => outcome.decoder.handles = dec.handles ∧
      outcome.decoder.numHandles = dec.numHandles where
  mode := rfl
  utf8 := rfl
  go _ := ⟨rfl, rfl⟩
  exit _ _ := ⟨rfl, rfl⟩
  andThen {_ left _ _ _} first more := by
    cases left with
    | go middle => exact ⟨(more middle).1.trans first.1, (more middle).2.trans first.2⟩
    | exit | abort => exact first
  place _ := by cases cfg.mode <;> exact ⟨rfl, rfl⟩
  handle dec pos attrs := by
    unfold Decoder.visitHandle
    simp only
    repeat' split
    all_goals exact ⟨rfl, rfl⟩
  unknown dec envelope pos isResource _ := by
    have taken : ∀ (middle : Decoder) leave count,
        (middle.unknownHandles leave count).decoder.handles = middle.handles ∧
          (middle.unknownHandles leave count).decoder.numHandles = middle.numHandles := by
      intro middle leave count
      unfold Decoder.unknownHandles
      repeat' split
      all_goals first
        | exact ⟨rfl, rfl⟩
        | (cases leave <;> exact ⟨rfl, rfl⟩)
    unfold Decoder.visitUnknownEnvelope
    simp only
    split
    · exact ⟨rfl, rfl⟩
    split
    · split
      · exact ⟨rfl, rfl⟩
      rename_i converted
      obtain ⟨_, _, rfl⟩ := convertEnvelope_memory converted
      exact taken ..
    · exact taken ..

private lemma lockstep_ends (decoding : cfg.mode = .decode) :
    Lockstep cfg cfg fun dec outcome _ => Inv cfg dec → Ends cfg outcome where
  mode := rfl
  utf8 := rfl
  go _ := id
  exit _ _ := .inl
  andThen first more inv := (first inv).andThen more
  place _ inv := by
    rw [decoding]
    exact inv.visit (.object _ _) (fun _ _ => nofun) rfl rfl rfl rfl rfl rfl
  handle dec pos attrs inv := inv.visitHandle decoding pos attrs
  unknown dec envelope pos isResource _ inv :=
    inv.visitUnknownEnvelope decoding envelope pos isResource

/-- What a walk does with the handles, from a state without a refusal. -/
lemma Inv.walk (inv : Inv cfg dec) (decoding : cfg.mode = .decode) (ty : CodedType)
    (depth pos : Nat) : Ends cfg (CodedType.walk cfg ty depth pos dec) :=
  (lockstep_ends decoding).walk ty depth pos dec inv

/-! ## What is noted -/

lemma unknownHandles_visits : (dec.unknownHandles leave count).decoder.visits = dec.visits := by
  unfold Decoder.unknownHandles
  repeat' split
  all_goals first
    | rfl
    | (cases leave <;> rfl)

/-- The visit of an unknown envelope is noted, whatever becomes of it. -/
lemma visitUnknownEnvelope_visited (envelope : EnvelopeCopy) (pos : Nat) (isResource : Bool) :
    dec.visits ++ [.unknown envelope] <+:
      (dec.visitUnknownEnvelope cfg envelope pos isResource).decoder.visits := by
  unfold Decoder.visitUnknownEnvelope
  simp only
  split
  · exact prefix_rfl
  split
  · split
    · exact prefix_rfl
    rename_i converted
    obtain ⟨_, _, rfl⟩ := convertEnvelope_memory converted
    rw [unknownHandles_visits]
    exact prefix_rfl
  · rw [unknownHandles_visits]
    exact prefix_rfl

lemma visitUnknownEnvelope_visits : dec.visits <+:
      (dec.visitUnknownEnvelope cfg envelope pos isResource).decoder.visits :=
  (prefix_append ..).trans (visitUnknownEnvelope_visited ..)

end

/-! ## Where the handles are after a successful walk -/

/-- What a state of a walk in a buffer satisfies. -/
structure Ready (cfg : Config) (base : Nat) (dec : Decoder) : Prop where
  inv : Inv cfg dec
  start : dec.base = base
  positive : 0 < base
  address : base + dec.size < 2 ^ 64
  inside : dec.next ≤ dec.size
  live : ∀ handle ∈ dec.current, handle ≠ 0

/-- Between two states the decoder took incoming handles: some are now held in
fields, the others are unknown ones. -/
def Ledger (before after : Decoder) (held : List Handle) : Prop :=
  ∃ unknown left, after.unknown = before.unknown ++ unknown ∧ after.left = before.left ++ left ∧
    (after.current.take after.index).Perm
      (before.current.take before.index ++ (held ++ unknown ++ left))

/-- A walk over an object in a range, which may continue out of line. Whoever reads
the object in a memory that agrees on these places finds the handles held. -/
structure Took (cfg : Config) (base : Nat) (before after : Decoder) (start stop : Nat)
    (held : List Handle) (view : Memory → List Handle) : Prop where
  ready : Ready cfg base after
  size : after.size = before.size
  next : before.next ≤ after.next
  frame : ∀ address, address < start ∨ stop ≤ address →
    address < before.next ∨ after.next ≤ address → after.memory address = before.memory address
  ledger : Ledger before after held
  reads : ∀ memory, AgreeOn start stop memory after.memory →
    AgreeOn before.next after.next memory after.memory → view memory = held

section

variable {cfg : Config} {base : Nat} {before middle after dec : Decoder}
  {held held' : List Handle} {view view' : Memory → List Handle} {start stop pos ptr : Nat}

lemma Ledger.refl (dec : Decoder) : Ledger dec dec [] :=
  ⟨[], [], by simp, by simp, by simp⟩

lemma Ledger.trans (first : Ledger before middle held) (second : Ledger middle after held') :
    Ledger before after (held ++ held') := by
  obtain ⟨unknown, left, aside, left_eq, perm⟩ := first
  obtain ⟨unknown', left', aside', left_eq', perm'⟩ := second
  refine ⟨unknown ++ unknown', left ++ left', ?_, ?_, ?_⟩
  · rw [aside', aside, append_assoc]
  · rw [left_eq', left_eq, append_assoc]
  · refine perm'.trans ?_
    rw [perm_iff_count] at perm ⊢
    intro handle
    have here := perm handle
    simp only [count_append] at here ⊢
    omega

lemma Took.idle (ready : Ready cfg base dec)
    (empty : ∀ memory, AgreeOn start stop memory dec.memory → view memory = []) :
    Took cfg base dec dec start stop [] view :=
  ⟨ready, rfl, le_rfl, fun _ _ _ => rfl, .refl dec, fun memory here _ => empty memory here⟩

lemma Took.append (first : Took cfg base before middle start pos held view)
    (second : Took cfg base middle after pos stop held' view')
    (above : start ≤ pos) (ordered : pos ≤ stop) (below : stop ≤ before.next) :
    Took cfg base before after start stop (held ++ held') (fun memory => view memory ++ view' memory) := by
  have next := first.next
  have next' := second.next
  refine ⟨second.ready, second.size.trans first.size, Nat.le_trans next next', ?_,
    first.ledger.trans second.ledger, ?_⟩
  · intro addr _ _
    rw [second.frame addr (by omega) (by omega), first.frame addr (by omega) (by omega)]
  · intro memory here there
    rw [first.reads memory (fun addr low high => ?_) (fun addr low high => ?_),
      second.reads memory (here.mono above le_rfl) (there.mono next le_rfl)]
    · rw [here addr low (by omega)]
      exact second.frame addr (by omega) (by omega)
    · rw [there addr low (by omega)]
      exact second.frame addr (by omega) (by omega)

lemma Took.widen (took : Took cfg base before after start stop held view)
    (above : start' ≤ start) (below : stop ≤ stop') : Took cfg base before after start' stop' held view := by
  refine { took with frame := ?_, reads := ?_ }
  · exact fun addr outside => took.frame addr (by omega)
  · exact fun memory here => took.reads memory (here.mono above below)

lemma Took.congr (took : Took cfg base before after start stop held view)
    (same : ∀ memory, AgreeOn start stop memory after.memory → view' memory = view memory) :
    Took cfg base before after start stop held view' :=
  { took with reads := fun memory here there => (same memory here).trans (took.reads memory here there) }

/-! ## Pointers -/

lemma Ready.place (ready : Ready cfg base dec) (inside : later ≤ dec.size)
    (ptr size : Nat) : Ready cfg base (dec.place .decode ptr size later) :=
  { ready with
    inv := ready.inv.visit (.object _ _) (fun _ _ => nofun) rfl rfl rfl rfl rfl rfl
    inside }

/-- An object out of line and the pointer to it. -/
lemma Took.refer {size next : Nat} (ready : Ready cfg base before)
    (below : ptr + 8 ≤ before.next) (room : before.next + size ≤ next) (inside : next ≤ before.size)
    (took : Took cfg base (before.place .decode ptr size next) after before.next
      (before.next + size) held view)
    (same : ∀ memory, word memory ptr 8 = base + before.next → view' memory = view memory) :
    Took cfg base before after ptr (ptr + 8) held view' := by
  have later : next ≤ after.next := took.next
  have placed : ∀ addr, addr < ptr ∨ ptr + 8 ≤ addr →
      (before.place .decode ptr size next).memory addr = before.memory addr := by
    intro addr outside
    exact store_outside (by simpa using outside)
  refine ⟨took.ready, took.size, by omega, ?_, took.ledger, ?_⟩
  · intro addr outside apart
    have still : after.memory addr = (before.place .decode ptr size next).memory addr := by
      refine took.frame addr (by omega) ?_
      rcases apart with low | high
      · exact .inl (Nat.lt_of_lt_of_le low (by exact Nat.le_trans (Nat.le_add_right ..) room))
      · exact .inr high
    rw [still, placed addr outside]
  · intro memory here there
    have pointed : word memory ptr 8 = base + before.next := by
      have addr := ready.address
      have stored : load (before.place .decode ptr size next).memory ptr 8 =
          littleEndian 8 (before.base + before.next) := load_store_of_length (length_littleEndian ..)
      have loaded : load memory ptr 8 = littleEndian 8 (before.base + before.next) := by
        refine (load_congr here).trans ((load_congr fun addr low high => ?_).trans stored)
        refine took.frame addr (by omega) (.inl ?_)
        exact Nat.lt_of_lt_of_le (by omega) (Nat.le_trans (Nat.le_add_right ..) room)
      rw [ready.start] at loaded
      refine word_of_load ?_ loaded
      omega
    rw [same memory pointed]
    refine took.reads memory (there.mono le_rfl (by omega)) (there.mono ?_ le_rfl)
    exact Nat.le_trans (Nat.le_add_right ..) room

/-! ## Handles and unknown envelopes -/

lemma visitHandle_go (decoding : cfg.mode = .decode) {attrs : HandleAttributes}
    (gone : dec.visitHandle cfg pos attrs = .go after) : ∃ handle, dec.handles.getD dec.index 0 ≠ 0 ∧
      (cfg.processHandle attrs dec.index = .unchanged ∧ dec.handles[dec.index]? = some handle ∨
        cfg.processHandle attrs dec.index = .replaced handle) ∧
      after = (dec.visit (.handle attrs dec.index)).storeHandle pos handle := by
  unfold Decoder.visitHandle at gone
  rw [decoding] at gone
  simp only at gone
  split at gone
  · cases gone
  split at gone
  · cases gone
  split at gone
  · cases gone
  rename_i live
  obtain ⟨-, found⟩ := getElem?_of_getD_ne live
  split at gone <;> cases gone <;> rename_i check
  · exact ⟨_, live, .inl ⟨check, found⟩, rfl⟩
  · exact ⟨_, live, .inr check, rfl⟩

private lemma take_set_succ {handles : List Handle} (below : i < handles.length) :
    (handles.set i handle).take (i + 1) = handles.take i ++ [handle] := by
  rw [take_add_one, getElem?_set_self below, take_set_of_le le_rfl]
  rfl

private lemma took_handle (ready : Ready cfg base dec) (decoding : cfg.mode = .decode)
    (fresh : Fresh cfg.processHandle) {attrs : HandleAttributes}
    (gone : dec.visitHandle cfg pos attrs = .go after) :
    ∃ held, Took cfg base dec after pos (pos + 4) held (fun memory => handleAt memory pos) := by
  obtain ⟨handle, present, check, rfl⟩ := visitHandle_go decoding gone
  obtain ⟨below, -⟩ := getElem?_of_getD_ne present
  have length := ready.inv.length
  have live : handle ≠ 0 := by
    rcases check with ⟨_, found⟩ | check
    · refine ready.live handle ?_
      have ahead := congrArg (·[0]?) ready.inv.ahead
      simp only [getElem?_drop, Nat.add_zero] at ahead
      exact mem_of_getElem? (ahead.trans found)
    · exact fresh _ _ _ check
  refine ⟨[handle], { ready with inv := ready.inv.storeHandle pos present check, live := ?_ },
    rfl, le_rfl, ?_, ⟨[], [], ?_, ?_, ?_⟩, ?_⟩
  · intro other mem
    rcases mem_or_eq_of_mem_set mem with mem | rfl
    · exact ready.live other mem
    · exact live
  · intro _ outside _
    exact store_outside (by simpa using outside)
  · exact (append_nil _).symm
  · exact (append_nil _).symm
  · simp only [Decoder.storeHandle, Decoder.visit, append_nil]
    rw [take_set_succ (by omega)]
  · intro memory here _
    have loaded : load memory pos 4 = littleEndian 4 handle.toNat :=
      (load_congr here).trans (load_store_of_length (length_littleEndian ..))
    have found : word memory pos 4 = handle.toNat :=
      word_of_load (Nat.lt_of_lt_of_le handle.toNat_lt (by decide)) loaded
    have positive : handle.toNat ≠ 0 := fun zero => live (UInt32.toNat_inj.mp zero)
    unfold handleAt
    rw [found, if_neg positive, UInt32.ofNat_toNat]

private lemma ledger_takeUnknown (inv : Inv cfg dec) : Ledger dec (dec.takeUnknown leave count) [] := by
  have split : dec.current.take (dec.index + count) =
      dec.current.take dec.index ++ dec.incoming count := by
    rw [take_add, inv.ahead]
    rfl
  cases leave with
  | true => exact ⟨[], dec.incoming count, (append_nil _).symm, rfl, by
      rw [append_nil, nil_append, ← split]
      rfl⟩
  | false => exact ⟨dec.incoming count, [], rfl, (append_nil _).symm, by
      rw [append_nil, nil_append, ← split]
      rfl⟩

section

variable (ready : Ready cfg base dec)
include ready

lemma took_unknownHandles (gone : dec.unknownHandles leave count = .go after) :
    Took cfg base dec after start start [] (fun _ => []) := by
  have inv := ready.inv.unknownHandles leave count
  rw [gone] at inv
  unfold Decoder.unknownHandles at gone
  split at gone
  · cases gone
    exact .idle ready fun _ _ => rfl
  split at gone
  · cases gone
  split at gone
  · cases gone
  split at gone
  · cases gone
  split at gone <;> cases gone
  have ledger : Ledger dec (dec.takeUnknown leave count) [] :=
    ledger_takeUnknown ready.inv
  cases leave <;>
    exact ⟨{ ready with inv }, rfl, le_rfl, fun _ _ _ => rfl, ledger, fun _ _ _ => rfl⟩

/-- What is written over an unknown envelope does not matter. -/
private lemma took_write (envelope : EnvelopeCopy) (eight : bytes.length = 8) : Took cfg base dec
      ((dec.visit (.unknown envelope)).assign .decode pos bytes) pos (pos + 8) [] (fun _ => []) := by
  have inv : Inv cfg ((dec.visit (.unknown envelope)).assign .decode pos bytes) :=
    ready.inv.visit (.unknown _) (fun _ _ => nofun) rfl rfl rfl rfl rfl rfl
  refine ⟨{ ready with inv }, rfl, le_rfl, ?_, .refl dec, fun _ _ _ => rfl⟩
  intro _ _ _
  exact store_outside (by rwa [eight])

private lemma took_visit (envelope : EnvelopeCopy) :
    Took cfg base dec (dec.visit (.unknown envelope)) start stop [] (fun _ => []) := by
  have inv : Inv cfg (dec.visit (.unknown envelope)) :=
    ready.inv.visit (.unknown _) (fun _ _ => nofun) rfl rfl rfl rfl rfl rfl
  exact ⟨{ ready with inv }, rfl, le_rfl, fun _ _ _ => rfl, .refl dec, fun _ _ _ => rfl⟩

private lemma took_unknown (decoding : cfg.mode = .decode) (below : pos + 8 ≤ dec.next)
    (gone : dec.visitUnknownEnvelope cfg envelope pos isResource = .go after) :
    Took cfg base dec after pos (pos + 8) [] (fun _ => []) := by
  unfold Decoder.visitUnknownEnvelope at gone
  rw [decoding] at gone
  simp only at gone
  split at gone
  · split at gone
    · cases gone
    rename_i converted
    obtain ⟨_, eight, rfl⟩ := convertEnvelope_memory converted
    have written : Took cfg base dec _ pos (pos + 8) [] fun _ => [] :=
      took_write ready envelope eight
    exact written.append (took_unknownHandles written.ready gone) (Nat.le_add_right ..)
      le_rfl below
  · have visited : Took cfg base dec _ pos (pos + 8) [] fun _ => [] :=
      took_visit ready envelope
    exact visited.append (took_unknownHandles visited.ready gone) (Nat.le_add_right ..)
      le_rfl below

end

end

/-! ## Walks -/

/-- What a walk did between two states over a range of an object, and the handles
that are read from the range. -/
abbrev Range : Type :=
  (before after : Decoder) → (start stop : Nat) → (view : Memory → List Handle) → Prop

/-- What holds for handles, unknown envelopes and pointers, and is kept when walks
are put together. It then holds for the objects of all types. -/
structure Compositional (cfg : Config) (base : Nat) (Good : Decoder → Prop) (Over : Range) :
    Prop where
  good : Over before after start stop view → Good after
  next : Over before after start stop view → before.next ≤ after.next
  frame : Over before after start stop view → ∀ address, address < start ∨ stop ≤ address →
    address < before.next ∨ after.next ≤ address → after.memory address = before.memory address
  idle : Good dec → (∀ memory, AgreeOn start stop memory dec.memory → view memory = []) →
    Over dec dec start stop view
  append : Over before middle start pos view → Over middle after pos stop view' →
    start ≤ pos → pos ≤ stop → stop ≤ before.next →
    Over before after start stop fun memory => view memory ++ view' memory
  widen : Over before after start stop view → start' ≤ start → stop ≤ stop' →
    Over before after start' stop' view
  congr : Over before after start stop view →
    (∀ memory, AgreeOn start stop memory after.memory → view' memory = view memory) →
    Over before after start stop view'
  place : Good dec → Fits dec cfg pointee pointer size stop →
    Good (dec.place cfg.mode pointer size stop)
  /-- An object out of line and the pointer to it. -/
  refer : Good before → pointer + 8 ≤ before.next → Fits before cfg pointee pointer size stop →
    Over (before.place cfg.mode pointer size stop) after before.next (before.next + size)
      (fun memory => view memory before.next) →
    Over before after pointer (pointer + 8) (fun memory => pointerHandles base view memory pointer)
  /-- The pointer to an object that is not looked at is overwritten. -/
  overwrite : Good before → pointer + 8 ≤ before.next →
    Fits before cfg .envelope pointer size stop →
    Over (before.place cfg.mode pointer size stop) after pointer (pointer + 8) (fun _ => []) →
    Over before after pointer (pointer + 8) (fun _ => [])
  handle : Good before → before.visitHandle cfg pos attrs = .go after →
    Over before after pos (pos + 4) (fun memory => handleAt memory pos)
  unknown : Good before → pos + 8 ≤ before.next → envelope.numHandles < 2 ^ 16 →
    before.visitUnknownEnvelope cfg envelope pos isResource = .go after →
    Over before after pos (pos + 8) (fun _ => [])

/-- Such a fact about the walks over the objects of a type. -/
def Covers (Good : Decoder → Prop) (Over : Range) (size : Nat) (walk : Nat → Decoder → Outcome)
    (view : Memory → Nat → List Handle) : Prop :=
  ∀ pos before after, Good before → pos + size ≤ before.next → walk pos before = .go after →
    Over before after pos (pos + size) (fun memory => view memory pos)

lemma Covers.struct (isEmpty : Bool) (inside : Covers Good Over size walk view) :
    Covers Good Over size (walkStruct isEmpty walk) view := by
  intro pos before after good below gone
  unfold walkStruct at gone
  split at gone
  · cases gone
  · exact inside pos before after good below gone

/-- A payload type and the handles of its objects. -/
structure PayloadCovers (Good : Decoder → Prop) (Over : Range) (payload : Payload)
    (view : PayloadView) : Prop where
  size : view.size = payload.size
  covers : ∀ depth, Covers Good Over payload.size (payload.walk depth) view.view

private lemma walkPrimitive_go (gone : walkPrimitive subtype pos dec = .go after) : after = dec := by
  unfold walkPrimitive at gone
  split at gone <;> cases gone
  rfl

private lemma walkEnum_go (gone : walkEnum underlying strict validate pos dec = .go after) : after = dec := by
  unfold walkEnum at gone
  split at gone <;> cases gone
  rfl

private lemma walkBits_go (gone : walkBits underlying strict mask pos dec = .go after) : after = dec := by
  unfold walkBits at gone
  split at gone <;> cases gone
  rfl

private lemma eachHandles_nil (quiet : ∀ memory pos, view memory pos = []) (memory : Memory)
    (stride rounds pos : Nat) : eachHandles view stride memory rounds pos = [] := by
  induction rounds generalizing pos with
  | zero => rfl
  | succ rounds ih => rw [eachHandles, quiet, ih, append_nil]

/-- A null pointer. -/
lemma pointerHandles_null (here : AgreeOn ptr (ptr + 8) memory memory') (null : word memory' ptr 8 = 0) :
    pointerHandles base view memory ptr = [] := by
  unfold pointerHandles
  rw [if_pos ((word_congr here).trans null)]

/-- An envelope with an inlined object is not zero. -/
private lemma word_ne_zero_of_flags (flags : word memory (pos + 6) 2 = 1) : word memory pos 8 ≠ 0 := by
  rw [show 8 = 6 + 2 from rfl, word_add]
  omega

private lemma numHandles_lt (memory : Memory) (pos : Nat) :
    (EnvelopeCopy.read memory pos).numHandles < 2 ^ 16 := by
  have small := ofLittleEndian_lt (load memory (pos + 4) 2)
  rw [length_load] at small
  exact small

lemma handlesIn_of_not_needWalk (plain : ty.needWalk = false)
    (memory : Memory) (pos : Nat) : CodedType.handlesIn base ty memory pos = [] := by
  cases ty with
  | primitive => rfl
  | _ => cases plain

namespace Compositional

variable {cfg : Config} {base size stride : Nat} {Good : Decoder → Prop} {Over : Range}
  {before after dec : Decoder} {walk : Nat → Decoder → Outcome}
  {view : Memory → Nat → List Handle} {needWalk : Bool} (rules : Compositional cfg base Good Over)

include rules

lemma same (same : ∀ pos dec after, walk pos dec = .go after →
    after = dec) : Covers Good Over size walk (fun _ _ => []) := by
  intro pos before after good _ gone
  cases same pos before after gone
  exact rules.idle good fun _ _ => rfl

lemma each (one : Covers Good Over stride walk view) (rounds pos : Nat)
    (good : Good before) (below : pos + rounds * stride ≤ before.next)
    (gone : walkEach walk stride rounds pos before = .go after) :
    Over before after pos (pos + rounds * stride)
      (fun memory => eachHandles view stride memory rounds pos) := by
  induction rounds generalizing pos before with
  | zero =>
    cases gone
    exact rules.idle good fun _ _ => rfl
  | succ rounds ih =>
    obtain ⟨middle, first, rest⟩ := Outcome.andThen_eq_go.mp gone
    have split : (rounds + 1) * stride = stride + rounds * stride := by ring
    rw [split] at below ⊢
    have here := one pos before middle good (by omega) first
    have next := rules.next here
    have others := ih (pos + stride) (rules.good here) (by omega) rest
    rw [Nat.add_assoc] at others
    exact rules.append here others (by omega) (by omega) below

lemma iterable (one : Covers Good Over stride walk view)
    (quiet : needWalk = false → ∀ memory pos, view memory pos = []) (whole : stride ∣ endOffset) :
    Covers Good Over endOffset (walkIterable needWalk walk stride endOffset)
      (fun memory => eachHandles view stride memory (rounds stride endOffset)) := by
  intro pos _ _ good _ gone
  unfold walkIterable at gone
  split at gone
  · have covered := rules.each one (rounds stride endOffset) pos good
      (by rwa [rounds_mul whole]) gone
    rwa [rounds_mul whole] at covered
  next idle =>
    cases gone
    refine rules.idle good fun memory _ => ?_
    exact eachHandles_nil (quiet (Bool.eq_false_iff.mpr idle)) memory _ _ pos

lemma pointer (inside : Covers Good Over size walk view) (good : Good before)
    {ptr : Nat} (below : ptr + 8 ≤ before.next)
    (gone : before.visitPointer cfg pointee ptr size walk = .go after) :
    Over before after ptr (ptr + 8) (fun memory => pointerHandles base view memory ptr) := by
  obtain ⟨next, fits, gone⟩ := visitPointer_eq_go.mp gone
  have covered := inside _ _ _ (rules.place good fits) (le_addOutOfLine fits.added) gone
  exact rules.refer good below fits covered

/-- A count or a tag before a pointer or an envelope, which stays what it is. -/
lemma header (view : Nat → Memory → List Handle) (below : pos + 16 ≤ before.next)
    (covered : Over before after (pos + 8) (pos + 16) (view (word before.memory pos 8))) :
    Over before after pos (pos + 16) (fun memory => view (word memory pos 8) memory) := by
  refine rules.congr (rules.widen covered (Nat.le_add_right ..) le_rfl) fun memory here => ?_
  have same : word memory pos 8 = word before.memory pos 8 := by
    refine word_congr fun addr low high => ?_
    rw [here addr low (by omega)]
    exact rules.frame covered addr (by omega) (by omega)
  rw [same]

lemma structPointer {walk : (depth pos : Nat) → Decoder → Outcome}
    (inside : ∀ depth, Covers Good Over size (walk depth) view) (depth : Nat) :
    Covers Good Over 8 (walkStructPointer cfg size walk depth) (pointerHandles base view) := by
  intro pos _ _ good below gone
  unfold walkStructPointer at gone
  split at gone
  next null =>
    cases gone
    exact rules.idle good fun memory here => pointerHandles_null here null
  · obtain ⟨_, gone⟩ := guardDepth_eq_go.mp gone
    exact rules.pointer (inside _) good below gone

/-! ## Envelopes -/

lemma known {seen : PayloadView} (covers : PayloadCovers Good Over payload seen) (good : Good before)
    (below : pos + 8 ≤ before.next) (gone : walkKnownEnvelope cfg payload depth pos
      (EnvelopeCopy.read before.memory pos) before = .go after) : Over before after pos (pos + 8)
      (fun memory => envelopeHandles base (some seen) memory pos) := by
  unfold walkKnownEnvelope at gone
  simp only [envelopeHandles, covers.size]
  split at gone
  next small =>
    have four : payload.size ≤ 4 := small
    split at gone
    · cases gone
    rename_i flagged
    rw [not_not] at flagged
    obtain ⟨_, gone⟩ := guardDepth_eq_go.mp gone
    obtain ⟨middle, entered, left⟩ := Outcome.andThen_eq_go.mp gone
    obtain ⟨_, checked, walked⟩ := Outcome.andThen_eq_go.mp entered
    obtain ⟨_, rfl⟩ := visitInternalPadding_eq_go.mp checked
    obtain ⟨_, rfl⟩ := leaveInlinedEnvelope_eq_go.mp left
    have covered := covers.covers _ pos _ _ good (by omega) walked
    have wide : Over before middle pos (pos + 8) _ :=
      rules.widen covered le_rfl (by omega)
    refine rules.congr wide fun memory here => ?_
    have flags : word memory (pos + 6) 2 = 1 := by
      refine (word_congr fun addr low high => ?_).trans flagged
      rw [here addr (by omega) (by omega)]
      exact rules.frame covered addr (by omega) (by omega)
    rw [if_pos small, if_neg (word_ne_zero_of_flags flags)]
  next large =>
    split at gone
    · cases gone
    obtain ⟨_, gone⟩ := guardDepth_eq_go.mp gone
    have inside : Covers Good Over payload.size (fun object dec =>
        (payload.walk ((depth + 1) % 2 ^ 8) object dec).andThen fun dec =>
          dec.leaveEnvelope (EnvelopeCopy.read before.memory pos) before) seen.view := by
      intro object first _ good below gone
      obtain ⟨middle, walked, left⟩ := Outcome.andThen_eq_go.mp gone
      obtain ⟨_, _, rfl⟩ := leaveEnvelope_eq_go.mp left
      exact covers.covers _ object first middle good below walked
    simp only [if_neg large]
    exact rules.pointer inside good below gone

lemma unknownEnvelope
    (small : envelope.numHandles < 2 ^ 16) (good : Good before) (below : pos + 8 ≤ before.next)
    (gone : walkUnknownEnvelope cfg isResource depth pos envelope before = .go after) :
    Over before after pos (pos + 8) (fun _ => []) := by
  unfold walkUnknownEnvelope at gone
  split at gone
  · obtain ⟨_, gone⟩ := guardDepth_eq_go.mp gone
    obtain ⟨middle, visited, left⟩ := Outcome.andThen_eq_go.mp gone
    obtain ⟨_, rfl⟩ := leaveInlinedEnvelope_eq_go.mp left
    exact rules.unknown good below small visited
  · obtain ⟨_, gone⟩ := guardDepth_eq_go.mp gone
    obtain ⟨next, fits, gone⟩ := visitPointer_eq_go.mp gone
    obtain ⟨middle, visited, left⟩ := Outcome.andThen_eq_go.mp gone
    obtain ⟨_, _, rfl⟩ := leaveEnvelope_eq_go.mp left
    have room := le_addOutOfLine fits.added
    have above : pos + 8 ≤ (before.place cfg.mode pos envelope.numBytes next).next :=
      Nat.le_trans below (Nat.le_trans (Nat.le_add_right ..) room)
    exact rules.overwrite good below fits (rules.unknown (rules.place good fits) above small visited)

lemma envelope {seen : Option PayloadView}
    (related : Option.Rel (PayloadCovers Good Over) payload seen) (depth : Nat) :
    Covers Good Over 8 (walkEnvelope cfg payload isResource depth) (envelopeHandles base seen) := by
  intro _ _ _ good below gone
  unfold walkEnvelope at gone
  simp only at gone
  split at gone
  · cases gone
  split at gone
  next zero =>
    obtain ⟨_, _, rfl⟩ := leaveEnvelope_eq_go.mp gone
    refine rules.idle good fun memory here => ?_
    have zero := (word_congr here).trans zero
    cases related with
    | none => rfl
    | some related => simp only [envelopeHandles, pointerHandles, if_pos zero, ite_self]
  · cases related with
    | none => exact rules.unknownEnvelope (numHandles_lt ..) good below gone
    | some related => exact rules.known related good below gone

lemma envelopes (isResource : Bool) (depth count ordinal : Nat)
    (related : RelFields (PayloadCovers Good Over) fields views) :
    Covers Good Over (count * 8) (walkEnvelopes cfg isResource depth count ordinal fields)
      (fun memory => envelopesHandles base memory count ordinal views) := by
  induction count generalizing ordinal fields views with
  | zero =>
    intro pos before after good _ gone
    cases gone
    exact rules.idle good fun _ _ => rfl
  | succ count ih =>
    intro pos before after good below gone
    obtain ⟨field, rest⟩ := nextField_rel related
    obtain ⟨middle, first, gone⟩ := Outcome.andThen_eq_go.mp gone
    have here := rules.envelope field depth pos before middle good (by omega) first
    have next := rules.next here
    have others := ih (ordinal + 1) rest (pos + 8) middle after (rules.good here) (by omega) gone
    rw [show pos + (count + 1) * 8 = pos + 8 + count * 8 by ring] at below ⊢
    exact rules.append here others (by omega) (by omega) below

/-! ## Types -/

lemma table (isResource : Bool) (depth : Nat)
    {views : List (Nat × PayloadView)} (related : RelFields (PayloadCovers Good Over) fields views) :
    Covers Good Over 16 (walkTable cfg isResource fields depth) (tableHandles base views) := by
  intro pos before _ good below gone
  unfold walkTable at gone
  simp only at gone
  split at gone
  · split at gone
    · cases gone
    · obtain ⟨_, gone⟩ := guardDepth_eq_go.mp gone
      cases gone
  · split at gone
    · cases gone
    obtain ⟨_, gone⟩ := guardDepth_eq_go.mp gone
    have inside := rules.envelopes isResource ((depth + 1) % 2 ^ 8)
      (word before.memory pos 8) 1 related
    have counted := rules.header (fun count memory =>
      pointerHandles base (fun memory => envelopesHandles base memory count 1 views) memory
        (pos + 8)) below (rules.pointer inside good (by omega) gone)
    exact rules.congr counted fun memory _ => by simp only [tableHandles, pointerHandles]

lemma xunion (nullable strict isResource : Bool) (depth : Nat)
    (related : List.Forall₂ (Option.Rel (PayloadCovers Good Over)) fields views) :
    Covers Good Over 16 (walkXUnion cfg nullable strict isResource fields depth)
      (unionHandles base views) := by
  intro pos before after good below gone
  unfold walkXUnion at gone
  simp only at gone
  split at gone
  next zero =>
    split at gone
    · cases gone
    split at gone <;> cases gone
    refine rules.idle good fun memory here => ?_
    unfold unionHandles
    rw [if_pos ((word_congr (here.mono le_rfl (by omega))).trans zero)]
  next tagged =>
    split at gone
    · cases gone
    split at gone
    · cases gone
    have covered := rules.envelope (join_rel related (word before.memory pos 8 - 1)) depth
      (pos + 8) before after good below gone
    refine rules.header (fun tag memory => if tag = 0 then []
      else envelopeHandles base views[tag - 1]?.join memory (pos + 8)) below ?_
    simp only [if_neg tagged]
    exact covered

lemma string (nullable : Bool) (maxSize depth : Nat) :
    Covers Good Over 16 (walkString cfg nullable maxSize depth) (fun _ _ => []) := by
  intro pos before _ good _ gone
  unfold walkString at gone
  simp only at gone
  split at gone
  · split at gone
    · cases gone
    split at gone
    · obtain ⟨_, gone⟩ := guardDepth_eq_go.mp gone
      cases gone
    · cases gone
      exact rules.idle good fun _ _ => rfl
  · split at gone
    · cases gone
    split at gone
    · cases gone
    obtain ⟨_, gone⟩ := guardDepth_eq_go.mp gone
    have inside : Covers Good Over (word before.memory pos 8)
        (fun _ dec => .go dec) (fun _ _ => []) :=
      rules.same fun _ _ _ gone => (Outcome.go.inj gone).symm
    have covered := rules.pointer inside good (by omega) gone
    refine rules.congr (rules.widen covered (by omega) (by omega)) fun memory here => ?_
    simp [pointerHandles]

private lemma handleField (nullable : Bool) (attrs : HandleAttributes) :
    Covers Good Over 4 (walkHandle cfg nullable attrs) handleAt := by
  intro _ _ _ good _ gone
  unfold walkHandle at gone
  split at gone
  next absent =>
    split at gone <;> cases gone
    refine rules.idle good fun memory here => ?_
    unfold handleAt
    rw [if_pos ((word_congr here).trans absent)]
  · exact rules.handle good gone

lemma vector (nullable : Bool) {walk : (depth pos : Nat) → Decoder → Outcome}
    (one : ∀ depth, Covers Good Over stride (walk depth) view)
    (quiet : needWalk = false → ∀ memory pos, view memory pos = []) (maxCount depth : Nat) :
    Covers Good Over 16 (walkVector cfg nullable maxCount stride needWalk walk depth)
      (vectorHandles base view stride) := by
  intro pos before _ good below gone
  unfold walkVector at gone
  simp only at gone
  split at gone
  next null =>
    split at gone
    · cases gone
    split at gone
    · obtain ⟨_, gone⟩ := guardDepth_eq_go.mp gone
      cases gone
    · cases gone
      refine rules.idle good fun memory here => ?_
      exact pointerHandles_null (here.mono (by omega) (by omega)) null
  · split at gone
    · cases gone
    split at gone
    · cases gone
    obtain ⟨_, gone⟩ := guardDepth_eq_go.mp gone
    have inside := rules.iterable (one ((depth + 1) % 2 ^ 8)) quiet
      (Nat.dvd_mul_left stride (word before.memory pos 8))
    have counted := rules.header (fun count memory =>
      pointerHandles base (fun memory =>
        eachHandles view stride memory (rounds stride (count * stride))) memory
          (pos + 8)) below (rules.pointer inside good (by omega) gone)
    exact rules.congr counted fun memory _ => by simp only [vectorHandles, pointerHandles]

/-- The walk over the elements of a struct from an offset on. -/
lemma field {more : Nat → Decoder → Outcome}
    {view' : Memory → Nat → List Handle} (above : start ≤ off) (inside : off + size ≤ stop)
    (first : Covers Good Over size walk view)
    (rest : ∀ pos before after, Good before → pos + stop ≤ before.next →
      more pos before = .go after → Over before after (pos + (off + size)) (pos + stop)
        (fun memory => view' memory pos)) (good : Good before) (below : pos + stop ≤ before.next)
    (gone : (walk (pos + off) before).andThen (more pos) = .go after) :
    Over before after (pos + start) (pos + stop)
      (fun memory => view memory (pos + off) ++ view' memory pos) := by
  obtain ⟨middle, walked, gone⟩ := Outcome.andThen_eq_go.mp gone
  have here := first (pos + off) before middle good (by omega) walked
  have next := rules.next here
  have others := rest pos middle after (rules.good here) (by omega) gone
  rw [← Nat.add_assoc] at others
  exact rules.widen (rules.append here others (by omega) (by omega) below) (by omega) le_rfl

omit rules

mutual

lemma ofType (rules : Compositional cfg base Good Over) : (ty : CodedType) → ty.WellFormed → (depth : Nat) →
    Covers Good Over ty.typeSize (CodedType.walk cfg ty depth) (CodedType.handlesIn base ty)
  | .primitive _, _, _ => rules.same fun _ _ _ => walkPrimitive_go
  | .enum _ _ _, _, _ => rules.same fun _ _ _ => walkEnum_go
  | .bits _ _ _, _, _ => rules.same fun _ _ _ => walkBits_go
  | .struct isEmpty size elements, formed, depth =>
    .struct isEmpty (rules.ofElements elements 0 size formed depth)
  | .structPointer isEmpty size elements, formed, depth =>
    rules.structPointer (fun depth =>
      .struct isEmpty (rules.ofElements elements 0 size formed depth)) depth
  | .table isResource fields, formed, depth => by
    have step := rules.table isResource depth (rules.ofTableFields fields formed)
    exact step
  | .xunion nullable strict isResource fields, formed, depth => by
    have step := rules.xunion nullable strict isResource depth (rules.ofUnionFields fields formed)
    exact step
  | .array _ _ element, ⟨formed, same, whole⟩, depth => by
    subst same
    exact rules.iterable (rules.ofType element formed depth) handlesIn_of_not_needWalk whole
  | .string nullable maxSize, _, depth => rules.string nullable maxSize depth
  | .handle nullable attrs, _, _ => rules.handleField nullable attrs
  | .vector nullable maxCount _ element, ⟨formed, same⟩, depth => by
    subst same
    exact rules.vector nullable (rules.ofType element formed) handlesIn_of_not_needWalk maxCount
      depth

lemma ofElements (rules : Compositional cfg base Good Over) :
    (elements : Elements) → (start stop : Nat) → elements.WellFormed start stop →
    (depth pos : Nat) → (before after : Decoder) → Good before →
    pos + stop ≤ before.next → Elements.walk cfg elements depth pos before = .go after →
    Over before after (pos + start) (pos + stop) (fun memory => Elements.handlesIn base elements memory pos)
  | .nil, _, _, _, _, _, _, _, good, _, gone => by
    cases gone
    exact rules.idle good fun _ _ => rfl
  | .field _ ty rest, _, stop, ⟨formed, above, inside, more⟩, depth, _, _, _, good, below, gone =>
    rules.field above inside (rules.ofType ty formed depth)
      (rules.ofElements rest _ stop more depth) good below gone
  | .padding _ rest, start, stop, formed, depth, pos, before, after, good, below, gone => by
    obtain ⟨middle, checked, gone⟩ := Outcome.andThen_eq_go.mp gone
    obtain ⟨_, rfl⟩ := visitInternalPadding_eq_go.mp checked
    exact rules.ofElements rest start stop formed depth pos before after good below gone

lemma ofTableFields (rules : Compositional cfg base Good Over) : (fields : TableFields) → fields.WellFormed →
    RelFields (PayloadCovers Good Over) (TableFields.payloads cfg fields) (TableFields.views base fields)
  | .nil, _ => .nil
  | .field _ ty rest, ⟨formed, more⟩ =>
    .cons ⟨rfl, rfl, rules.ofType ty formed⟩ (rules.ofTableFields rest more)

lemma ofUnionFields (rules : Compositional cfg base Good Over) : (fields : UnionFields) → fields.WellFormed →
    List.Forall₂ (Option.Rel (PayloadCovers Good Over)) (UnionFields.payloads cfg fields)
      (UnionFields.views base fields)
  | .nil, _ => .nil
  | .reserved rest, more => .cons .none (rules.ofUnionFields rest more)
  | .field ty rest, ⟨formed, more⟩ =>
    .cons (.some ⟨rfl, rules.ofType ty formed⟩) (rules.ofUnionFields rest more)

end

end Compositional

/-- Whoever reads an object after a successful walk over it finds the handles that
the walk put into fields. -/
def Walks (cfg : Config) (base size : Nat) (walk : Nat → Decoder → Outcome)
    (view : Memory → Nat → List Handle) : Prop :=
  ∀ pos before after, Ready cfg base before → pos + size ≤ before.next →
    walk pos before = .go after →
    ∃ held, Took cfg base before after pos (pos + size) held
      (fun memory => view memory pos)

/-- Taking handles out of the array is compositional. -/
lemma compositional_took (decoding : cfg.mode = .decode) (fresh : Fresh cfg.processHandle) :
    Compositional cfg base (Ready cfg base) fun before after start stop view =>
      ∃ held, Took cfg base before after start stop held view where
  good := fun ⟨_, took⟩ => took.ready
  next := fun ⟨_, took⟩ => took.next
  frame := fun ⟨_, took⟩ => took.frame
  idle ready empty := ⟨[], .idle ready empty⟩
  append := fun ⟨held, first⟩ ⟨held', second⟩ above ordered below =>
    ⟨held ++ held', first.append second above ordered below⟩
  widen := fun ⟨held, took⟩ above below => ⟨held, took.widen above below⟩
  congr := fun ⟨held, took⟩ same => ⟨held, took.congr same⟩
  place ready fits := by
    rw [decoding]
    exact ready.place fits.inside ..
  refer ready below fits := by
    rw [decoding]
    rintro ⟨held, took⟩
    refine ⟨held, .refer ready below (le_addOutOfLine fits.added) fits.inside took
      fun memory pointed => ?_⟩
    unfold pointerHandles
    rw [pointed, if_neg (by omega), Nat.add_sub_cancel_left]
  overwrite {before ptr size next _} ready _ fits := by
    rw [decoding]
    rintro ⟨held, taken⟩
    have next : before.next ≤ (before.place .decode ptr size next).next :=
      Nat.le_trans (Nat.le_add_right ..) (le_addOutOfLine fits.added)
    have next' := taken.next
    refine ⟨held, taken.ready, taken.size, Nat.le_trans next next', ?_, taken.ledger, ?_⟩
    · intro addr outside _
      rw [taken.frame addr outside (by omega)]
      exact store_outside (by simpa using outside)
    · exact fun memory here there => taken.reads memory here (there.mono next le_rfl)
  handle ready gone := took_handle ready decoding fresh gone
  unknown ready below _ gone := ⟨[], took_unknown ready decoding below gone⟩

lemma walks_type (decoding : cfg.mode = .decode) (fresh : Fresh cfg.processHandle) (formed : ty.WellFormed) :
    Walks cfg base ty.typeSize (CodedType.walk cfg ty depth) (CodedType.handlesIn base ty) :=
  (compositional_took decoding fresh).ofType ty formed depth

/-! ## The whole message -/

section

variable {cfg : Config} {ty : CodedType} {msg : Message} {dec after : Decoder}

lemma close_live {handles : List Handle} (live : ∀ handle ∈ handles, handle ≠ 0) :
    close handles = handles :=
  filter_eq_self.mpr fun handle mem => decide_eq_true (live handle mem)

/-- After an error without a refusal, what was closed is right exactly if no
handle was replaced. -/
lemma Inv.fail_iff (inv : Inv cfg dec) (live : ∀ handle ∈ dec.handles, handle ≠ 0)
    (fresh : ∀ attrs i successor,
      cfg.processHandle attrs i = .replaced successor → successor ∉ dec.handles)
    (error : DecodeError) : Conserves ty (fail error dec) ↔ Checks cfg dec (· = .unchanged) := by
  have closed : (dec.closeMany dec.handles).closed = dec.handles := by
    simp only [Decoder.closeMany, inv.closed, close_live live, nil_append]
  have same : Conserves ty (fail error dec) ↔ dec.current.Perm dec.handles := by
    simp only [Conserves, fail, closed]
    rfl
  rw [same]
  constructor
  · intro perm attrs i visited
    cases check : cfg.processHandle attrs i with
    | unchanged => rfl
    | replaced successor =>
      have found := inv.replaced attrs i successor visited check
      exact absurd (perm.mem_iff.mp (mem_of_getElem? found)) (fresh _ _ _ check)
    | refused => exact absurd check (inv.passed attrs i visited _)
  · intro unchanged
    rw [inv.unchanged unchanged]

/-- After a refusal a handle was closed twice. -/
lemma Refused.not_conserves (refused : Refused cfg dec)
    (live : ∀ handle ∈ dec.handles, handle ≠ 0) (error : DecodeError) :
    ¬ Conserves ty (fail error dec) := by
  intro perm
  have length := List.Perm.length_eq perm
  simp only [Decoder.closeMany, close_live live, length_append, refused.length] at length
  have some : dec.closed.length ≠ 0 := fun none => refused.closed (length_eq_zero_iff.mp none)
  omega

private lemma passed_of_unchanged (unchanged : Checks cfg dec (· = .unchanged)) :
    Checks cfg dec HandleCheck.Passes := by
  intro attrs i visited cleared wrong
  have right := unchanged attrs i visited
  rw [wrong] at right
  cases right

lemma finish_visits : (finish outcome).decoder.visits = outcome.decoder.visits := by
  unfold finish
  repeat' split
  all_goals rfl

/-- What decoding closes at the end, given how the walk ended. -/
lemma finish_conserves_iff (ends : Ends cfg outcome)
    (live : ∀ handle ∈ outcome.decoder.handles, handle ≠ 0) (fresh : ∀ attrs i successor,
      cfg.processHandle attrs i = .replaced successor →
        successor ∉ outcome.decoder.handles) (returned : ∀ dec, finish outcome ≠ .abort dec)
    (success : ∀ dec, finish outcome = .go dec → Conserves ty (.go dec)) :
    Conserves ty (finish outcome) ↔ Checks cfg outcome.decoder (· = .unchanged) ∨
        ((∃ dec, finish outcome = .go dec) ∧ Checks cfg outcome.decoder HandleCheck.Passes) := by
  have failed : ∀ error dec, Inv cfg dec → dec = outcome.decoder → finish outcome = fail error dec →
      (Conserves ty (finish outcome) ↔ Checks cfg dec (· = .unchanged) ∨
        ((∃ dec, finish outcome = .go dec) ∧ Checks cfg dec HandleCheck.Passes)) := by
    intro error dec inv same finished
    subst same
    rw [finished, inv.fail_iff live fresh error]
    refine ⟨.inl, fun either => either.elim id fun wrong => ?_⟩
    obtain ⟨⟨_, wrong⟩, _⟩ := wrong
    cases wrong
  cases outcome with
  | abort dec => exact absurd rfl (returned dec)
  | exit error dec =>
    rcases ends with inv | refused
    · exact failed error dec inv rfl rfl
    refine ⟨fun conserves => absurd conserves (refused.not_conserves live error), fun either => ?_⟩
    rcases either with unchanged | ⟨_, passed⟩
    · exact absurd (passed_of_unchanged unchanged) refused.refused
    · exact absurd passed refused.refused
  | go dec =>
    have inv : Inv cfg dec := ends
    by_cases bytes : dec.next = dec.size
    · by_cases handles : dec.index = dec.numHandles
      · have finished : finish (.go dec) = .go (dec.closeMany dec.unknown) := by
          simp only [finish, bytes, handles, ne_eq, not_true_eq_false, if_false]
        refine ⟨fun _ => .inr ⟨⟨_, finished⟩, inv.passed⟩, fun _ => ?_⟩
        rw [finished]
        exact success _ finished
      · refine failed .handlesLeft dec inv rfl ?_
        simp only [finish, bytes, ne_eq, not_true_eq_false, if_false, handles, not_false_eq_true,
          if_true]
    · refine failed .bytesLeft dec inv rfl ?_
      simp only [finish, ne_eq, bytes, not_false_eq_true, if_true]

lemma inv_start (cfg : Config) (msg : Message) (next : Nat) : Inv cfg (msg.decoder next) where
  count := rfl
  length := rfl
  ahead := rfl
  within := Nat.zero_le _
  closed := rfl
  passed := nofun
  before := nofun
  replaced := nofun
  unchanged _ := rfl

/-- After success the handles are where they belong. -/
private lemma go_conserves (decoding : cfg.mode = .decode) (formed : ty.WellFormed)
    (live : ∀ handle ∈ msg.handles, handle ≠ 0) (fresh : Fresh cfg.processHandle)
    (positive : 0 < msg.base) (addr : msg.base + msg.size < 2 ^ 64) {next : Nat}
    (room : ty.typeSize ≤ next) (inside : next ≤ msg.size)
    (finished : finish (CodedType.walk cfg ty 0 0 (msg.decoder next)) = .go after) :
    Conserves ty (.go after) := by
  have ready : Ready cfg msg.base (msg.decoder next) :=
    ⟨inv_start cfg msg next, rfl, positive, addr, inside, live⟩
  cases walked : CodedType.walk cfg ty 0 0 (msg.decoder next) with
  | abort | exit =>
    rw [walked] at finished
    cases finished
  | go dec =>
    obtain ⟨_, took⟩ := walks_type decoding fresh formed 0 _ _ ready
      (by rwa [Nat.zero_add]) walked
    rw [walked] at finished
    unfold finish at finished
    simp only at finished
    split at finished
    · cases finished
    split at finished <;> cases finished
    rename_i consumed
    obtain ⟨unknown, _, aside, kept, perm⟩ := took.ledger
    have inv := took.ready.inv
    have all : dec.index = dec.current.length := by
      rw [inv.length, ← inv.count]
      exact not_not.mp consumed
    rw [all, take_length] at perm
    have aside : dec.unknown = unknown := aside
    have reads := took.reads dec.memory (fun _ _ _ => rfl) fun _ _ _ => rfl
    have nonzero : ∀ handle ∈ unknown, handle ≠ 0 := by
      intro handle mem
      refine took.ready.live handle (perm.mem_iff.mpr ?_)
      simp [mem]
    simp only [Conserves, Decoder.closeMany, inv.closed, nil_append, aside,
      close_live nonzero, kept]
    rw [took.ready.start, reads]
    exact perm

private lemma primaryObjectSize_ok (sized : primaryObjectSize ty size = .ok (primary, later)) :
    ty.typeSize ≤ later ∧ later ≤ size := by
  have general : ∀ {count : Nat}, (if align count > size then .error .bufferTooSmall
      else if align count > 2 ^ 32 - 1 then .error .firstOutOfLineOverflow
      else .ok (count, align count) : Except DecodeError (Nat × Nat)) = .ok (primary, later) →
      count ≤ later ∧ later ≤ size := by
    intro count sized
    split at sized
    · cases sized
    · split at sized <;> cases sized
      exact ⟨le_align _, by omega⟩
  cases ty with
  | struct | table | xunion => exact general sized
  | _ => cases sized

/-- `fidl_decode_impl` disposes of every incoming handle once exactly if all handles
that it has checked passed unchanged, or all passed and the message is decoded. -/
lemma conserves_iff_checks (formed : ty.WellFormed) (live : ∀ handle ∈ msg.handles, handle ≠ 0)
    (fresh : ∀ attrs i successor,
      cfg.processHandle attrs i = .replaced successor → successor ≠ 0 ∧ successor ∉ msg.handles)
    (addr : msg.base + msg.size < 2 ^ 64)
    (returned : ∀ dec, fidlDecodeImpl cfg ty msg ≠ .abort dec) :
    Conserves ty (fidlDecodeImpl cfg ty msg) ↔
      Checks cfg (fidlDecodeImpl cfg ty msg).decoder (· = .unchanged) ∨
        ((∃ dec, fidlDecodeImpl cfg ty msg = .go dec) ∧
          Checks cfg (fidlDecodeImpl cfg ty msg).decoder HandleCheck.Passes) := by
  rcases entry_cases msg 0 with ⟨error, failed⟩ | ⟨_, next, begins, walked⟩
  · -- An error before the walk: no handle was looked at.
    rw [(failed cfg).1, (inv_start cfg msg 0).fail_iff live
      (fun attrs i successor check => (fresh attrs i successor check).2) error]
    exact ⟨fun _ => .inl nofun, fun _ => nofun⟩
  rw [(walked cfg).1] at returned ⊢
  obtain ⟨room, inside⟩ := primaryObjectSize_ok begins.sized
  generalize same : ({ cfg with mode := .decode } : Config) = decoding at returned ⊢
  have checks : decoding.processHandle = cfg.processHandle := same ▸ rfl
  have mode : decoding.mode = .decode := same ▸ rfl
  have array : (CodedType.walk decoding ty 0 0 (msg.decoder next)).decoder.handles =
      msg.handles := (lockstep_handles.walk ty 0 0 (msg.decoder next)).1
  have closes := @finish_conserves_iff decoding ty _
    ((inv_start decoding msg next).walk mode ty 0 0) (fun handle mem => live handle (array ▸ mem))
    (fun attrs i successor check => array ▸ (fresh attrs i successor (checks ▸ check)).2)
    returned fun dec finished => go_conserves mode formed live
      (fun attrs i successor check => (fresh attrs i successor (checks ▸ check)).1)
      (Nat.pos_of_ne_zero begins.present) addr room inside finished
  unfold Checks at closes ⊢
  rwa [checks, ← finish_visits] at closes

end

/-- The handle of a message with one handle has the given object type. -/
def ofObjectType (objType : UInt32) : Config where
  mode := .decode
  hlcpp := false
  processHandle := decodeProcessHandle (fun _ => ⟨objType, rightSameRights⟩) fun _ => some 9
  isValidUtf8 _ := true

lemma ofObjectType_unreplaced : (ofObjectType 1).processHandle attrs i ≠ .replaced successor := by
  intro replaced
  change ensureHandleRights ⟨1, rightSameRights⟩ attrs (some 9) = _ at replaced
  unfold ensureHandleRights at replaced
  simp at replaced
  split at replaced <;> cases replaced

end FuchsiaSdk.CodedDecodeHandles
