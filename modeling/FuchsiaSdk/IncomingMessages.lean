import FuchsiaSdk.Custody
import FuchsiaSdk.Machine
import FuchsiaSdk.Memory

/-! The two receivers of messages from a channel: `HLCPPIncomingMessage`
(`fidl/cpp/message.cc`, `message_part.h`) and `IncomingHeaderAndMessage` with its
`EncodedMessage` (`fidl/cpp/wire/incoming_message.cc` and `incoming_message.h`). Neither owns
the arrays it points to. How many handles of the array a message owns is a count beside the
pointer, and the arrays are written only by the read that the message is made for, so a
pointer is modelled by what it points to. -/
namespace FuchsiaSdk.IncomingMessages
open List Option

/-- A received handle. The kernel does not hand out one twice. -/
abbrev Handle := Nat

/-- `sizeof(fidl_message_header_t)`. -/
def headerSize : Nat := 16

/-- `ZX_CHANNEL_MAX_MSG_HANDLES`. -/
def maxHandles : Nat := 64

/-- Values from `zircon/fidl.h`. -/
structure Constants where
  /-- `kFidlWireFormatMagicNumberInitial` -/
  magicNumberInitial : UInt8
  /-- `FIDL_MESSAGE_HEADER_AT_REST_FLAGS_0_USE_VERSION_V2` -/
  useVersionV2 : UInt8
  /-- `kFidlOrdinalEpitaph` -/
  ordinalEpitaph : Nat

/-- The fields of `fidl_message_header_t` that are read here. -/
structure Header where
  txid : Nat
  atRestFlags : UInt8
  magicNumber : UInt8
  ordinal : Nat

def headerOf (bytes : List UInt8) : Header where
  txid := Memory.ofLittleEndian (bytes.take 4)
  atRestFlags := bytes.getD 4 0
  magicNumber := bytes.getD 7 0
  ordinal := Memory.ofLittleEndian ((bytes.drop 8).take 8)

inductive Status where
  | ok
  | invalidArgs
  | bufferTooSmall
  | protocolNotSupported
  deriving DecidableEq, Repr

/-- A message in a channel. -/
structure Packet where
  bytes : List UInt8
  handles : List Handle

/-- The arrays that a message is read into, as they are before. -/
structure Buffer where
  bytes : List UInt8
  handles : List Handle

def overwrite {α : Type*} (array new : List α) : List α := new ++ array.drop new.length

/-- `zx_channel_read_etc`: a message that does not fit stays in the channel. -/
def channelReadEtc (buffer : Buffer) (packet : Packet) : Option Buffer :=
  if packet.bytes.length ≤ buffer.bytes.length ∧ packet.handles.length ≤ buffer.handles.length then
    some ⟨overwrite buffer.bytes packet.bytes, overwrite buffer.handles packet.handles⟩
  else none

/-! ## `HLCPPIncomingMessage` -/

structure MessagePart (α : Type) where
  data : Option (List α) := none
  capacity : Nat := 0
  actual : Nat := 0

namespace MessagePart

variable {α : Type}

def contents (part : MessagePart α) : List α := (part.data.getD []).take part.actual

/-- The copy of a part of bytes without its first `pos` ones. -/
def trim (part : MessagePart α) (pos : Nat) : MessagePart α where
  data := part.data.map (·.drop pos)
  capacity := if pos < part.capacity then part.capacity - pos else 0
  actual := if pos < part.actual then part.actual - pos else 0

def setActual (part : MessagePart α) (actual : Nat) : MessagePart α := { part with actual }

end MessagePart

structure HLCPPIncomingBody where
  bytes : MessagePart UInt8 := {}
  handles : MessagePart Handle := {}

structure HLCPPIncomingMessage where
  bytes : MessagePart UInt8 := {}
  bodyView : HLCPPIncomingBody := {}

/-- `CreateEmptyIncomingMessage`. -/
def createEmptyIncomingMessage (buffer : Buffer) : HLCPPIncomingMessage :=
  let bytes : MessagePart UInt8 := { data := some buffer.bytes, capacity := buffer.bytes.length }
  { bytes
    bodyView := {
      bytes := bytes.trim headerSize
      handles := { data := some buffer.handles, capacity := buffer.handles.length } } }

namespace HLCPPIncomingMessage

/-- `handles().set_actual`, also for `ClearHandlesUnsafe`. -/
def setHandles (msg : HLCPPIncomingMessage) (actual : Nat) : HLCPPIncomingMessage :=
  { msg with bodyView := { msg.bodyView with handles := msg.bodyView.handles.setActual actual } }

def resizeBytes (msg : HLCPPIncomingMessage) (numBytes : Nat) : HLCPPIncomingMessage where
  bytes := msg.bytes.setActual numBytes
  bodyView := { msg.bodyView with bytes := msg.bodyView.bytes.setActual (numBytes - headerSize) }

/-- `Read` into a message that was just made for the buffer. -/
def read (buffer : Buffer) (packet : Packet) : HLCPPIncomingMessage × Status :=
  match channelReadEtc buffer packet with
  | none => (createEmptyIncomingMessage buffer, .bufferTooSmall)
  | some written =>
    let msg := createEmptyIncomingMessage written
    if packet.bytes.length < headerSize then (msg, .invalidArgs)
    else ((msg.resizeBytes packet.bytes.length).setHandles packet.handles.length, .ok)

/-- What `Decode` says of the header before it calls the decoder: `is_valid` of the metadata
and `CheckWireFormatVersion`. -/
def checkHeader (consts : Constants) (header : Header) : Except (Status × String) Unit :=
  if header.magicNumber ≠ consts.magicNumberInitial then
    .error (.invalidArgs, "invalid wire format metadata")
  else if header.atRestFlags &&& consts.useVersionV2 = 0 then
    .error (.invalidArgs, "wire format v1 message received, but it is unsupported")
  else .ok ()

/-- A `Decode` that fails, and the handles that the decoder closes. A message without
storage has no header to read. -/
def decode (consts : Constants) (msg : HLCPPIncomingMessage) :
    Option (HLCPPIncomingMessage × List Handle) :=
  msg.bytes.data.map fun bytes =>
    match checkHeader consts (headerOf bytes) with
    | .error _ => (msg, [])
    | .ok _ => (msg.setHandles 0, msg.bodyView.handles.contents)

end HLCPPIncomingMessage

/-! ## `IncomingHeaderAndMessage` -/

/-- `hasTransport` says that `transport_vtable_` is not null. -/
structure EncodedMessage where
  hasTransport : Bool
  bytes : List UInt8
  handles : List Handle
  numHandles : Nat
  unowned : hasTransport = false → numHandles = 0

namespace EncodedMessage

/-- `Create` with bytes only. -/
def create (bytes : List UInt8) : EncodedMessage := ⟨false, bytes, [], 0, fun _ => rfl⟩

def releaseHandles (msg : EncodedMessage) : EncodedMessage :=
  ⟨false, msg.bytes, msg.handles, 0, fun _ => rfl⟩

def owned (msg : EncodedMessage) : List Handle := msg.handles.take msg.numHandles

/-- `CloseHandles`, and the handles it closes. -/
def closeHandles (msg : EncodedMessage) : EncodedMessage × List Handle :=
  (msg.releaseHandles, if msg.hasTransport then msg.owned else [])

/-- `Release`, and the handles it returns. It reads the transport. -/
def release (msg : EncodedMessage) : Option (EncodedMessage × List Handle) :=
  if msg.hasTransport then some (msg.releaseHandles, msg.owned) else none

end EncodedMessage

structure IncomingHeaderAndMessage where
  status : Status
  bytes : List UInt8
  body : EncodedMessage

namespace IncomingHeaderAndMessage

/-- `ValidateHeader`. -/
def validateHeader (consts : Constants) (bytes : List UInt8) : Status :=
  if bytes.length < headerSize then .invalidArgs
  else
    let header := headerOf bytes
    if header.magicNumber ≠ consts.magicNumberInitial then .protocolNotSupported
    else if header.ordinal = consts.ordinalEpitaph then
      if header.txid ≠ 0 then .invalidArgs else .ok
    else .ok

/-- The constructor for a message that was read. -/
def construct (consts : Constants) (bytes : List UInt8) (handles : List Handle) (handleActual : Nat) :
    IncomingHeaderAndMessage where
  status := validateHeader consts bytes
  bytes := bytes
  body :=
    if headerSize ≤ bytes.length then ⟨true, bytes.drop headerSize, handles, handleActual, nofun⟩
    else .create []

/-- `MessageRead` from a channel. -/
def messageRead (consts : Constants) (buffer : Buffer) (packet : Packet) : IncomingHeaderAndMessage :=
  match channelReadEtc buffer packet with
  | none => { status := .bufferTooSmall, bytes := [], body := .create [] }
  | some written =>
    construct consts (written.bytes.take packet.bytes.length) written.handles packet.handles.length

/-- `ReleaseToEncodedCMessage`, and the handles it returns. -/
def releaseToEncodedCMessage (asserts : Bool) (msg : IncomingHeaderAndMessage) :
    Option (IncomingHeaderAndMessage × List Handle) :=
  if asserts && msg.status ≠ .ok then none
  else some ({ msg with body := msg.body.releaseHandles }, msg.body.owned)

end IncomingHeaderAndMessage

/-! ## Histories -/

inductive Object where
  | hlcpp (msg : HLCPPIncomingMessage)
  | incoming (msg : IncomingHeaderAndMessage)
  | encoded (msg : EncodedMessage)

/-- The object that a move leaves, if two objects are of one class. -/
def Object.movedOnto (source : Object) (target : Option Object) : Option Object :=
  match source, target with
  | .hlcpp _, none | .hlcpp _, some (.hlcpp _) => some (.hlcpp {})
  | .incoming msg, none | .incoming msg, some (.incoming _) =>
    some (.incoming { msg with body := msg.body.releaseHandles })
  | .encoded msg, none | .encoded msg, some (.encoded _) => some (.encoded msg.releaseHandles)
  | _, _ => none

/-- The destructor, and the handles it closes. -/
def Object.destroy : Object → List Handle
  | .hlcpp msg => msg.bodyView.handles.contents
  | .incoming msg => msg.body.closeHandles.2
  | .encoded msg => msg.closeHandles.2

structure State where
  objects : Nat → Option Object := fun _ => none
  received : List Handle := []
  closed : List Handle := []
  handed : List Handle := []

inductive Receiver where
  | hlcpp
  | wire
  deriving DecidableEq, Repr

/-- The object that a read makes. -/
def Receiver.read (consts : Constants) (buffer : Buffer) (packet : Packet) : Receiver → Object
  | .hlcpp => .hlcpp (HLCPPIncomingMessage.read buffer packet).1
  | .wire => .incoming (.messageRead consts buffer packet)

inductive Label where
  /-- A message is read from a channel into arrays of its own. -/
  | read (receiver : Receiver) (slot : Nat) (buffer : Buffer) (packet : Packet)
  | moveConstruct (target source : Nat)
  | moveAssign (target source : Nat)
  | destroy (slot : Nat)
  /-- `Decode` fails, with its decoder if it calls one. -/
  | decode (slot : Nat)
  | closeHandles (slot : Nat)
  | skipTransactionHeader (target slot : Nat)
  | releaseToEncodedCMessage (slot : Nat)
  | release (slot : Nat)

namespace State

def put (st : State) (slot : Nat) (object : Option Object) : State :=
  { st with objects := Function.update st.objects slot object }

def move (st : State) (target source : Nat) : Option State :=
  (st.objects source).bind fun object =>
    (object.movedOnto (st.objects target)).map fun left =>
      (st.put target (some object)).put source (some left)

end State

def step (consts : Constants) (asserts : Bool) (st : State) : Label → Option State
  | .read receiver slot buffer packet =>
    if (st.objects slot).isSome ∨ ¬ packet.handles.Nodup ∨ maxHandles < packet.handles.length ∨
        ∃ handle ∈ packet.handles, handle ∈ st.received then none
    else
      let received := if (channelReadEtc buffer packet).isSome then packet.handles else []
      some { st.put slot (some (receiver.read consts buffer packet)) with
        received := st.received ++ received }
  | .moveConstruct target source =>
    if (st.objects target).isSome then none else st.move target source
  | .moveAssign target source =>
    if target = source then (st.objects source).map fun _ => st
    else if (st.objects target).isNone then none
    else st.move target source
  | .destroy slot =>
    (st.objects slot).map fun object =>
      { st.put slot none with closed := st.closed ++ object.destroy }
  | .decode slot =>
    match st.objects slot with
    | some (.hlcpp msg) => (msg.decode consts).map fun result =>
        { st.put slot (some (.hlcpp result.1)) with closed := st.closed ++ result.2 }
    | _ => none
  | .closeHandles slot =>
    match st.objects slot with
    | some (.incoming msg) => some {
        st.put slot (some (.incoming { msg with body := msg.body.closeHandles.1 })) with
        closed := st.closed ++ msg.body.closeHandles.2 }
    | some (.encoded msg) => some { st.put slot (some (.encoded msg.closeHandles.1)) with
        closed := st.closed ++ msg.closeHandles.2 }
    | _ => none
  | .skipTransactionHeader target slot =>
    match st.objects slot with
    | some (.incoming msg) =>
      if (st.objects target).isSome then none
      else some ((st.put target (some (.encoded msg.body))).put slot
        (some (.incoming { msg with body := msg.body.releaseHandles })))
    | _ => none
  | .releaseToEncodedCMessage slot =>
    match st.objects slot with
    | some (.incoming msg) => (msg.releaseToEncodedCMessage asserts).map fun result =>
        { st.put slot (some (.incoming result.1)) with handed := st.handed ++ result.2 }
    | _ => none
  | .release slot =>
    match st.objects slot with
    | some (.encoded msg) => msg.release.map fun result =>
        { st.put slot (some (.encoded result.1)) with handed := st.handed ++ result.2 }
    | _ => none

/-! ## Custody of the handles -/

def Object.owned : Object → List Handle
  | .hlcpp msg => msg.bodyView.handles.contents
  | .incoming msg => msg.body.owned
  | .encoded msg => msg.owned

def ownedAt (st : State) (slot : Nat) : List Handle := ((st.objects slot).map Object.owned).getD []

/-- Who holds which handle. -/
def State.ledger (st : State) : Custody.Ledger Nat Handle where
  holds := ownedAt st
  received := st.received
  closed := st.closed
  handed := st.handed

/-- What a step does to the custody of the handles. -/
def action (consts : Constants) (st : State) : Label → Custody.Action Nat Handle
  | .read _ slot buffer packet =>
    if (channelReadEtc buffer packet).isNone then .idle
    else if packet.bytes.length < headerSize then .miss packet.handles
    else .receive slot packet.handles
  | .moveConstruct target source | .moveAssign target source | .skipTransactionHeader target source =>
    .transfer target source
  | .destroy slot | .closeHandles slot => .close slot
  | .decode slot =>
    match st.objects slot with
    | some (.hlcpp msg) =>
      match msg.bytes.data.map fun bytes => HLCPPIncomingMessage.checkHeader consts (headerOf bytes) with
      | some (.ok _) => .close slot
      | _ => .idle
    | _ => .idle
  | .releaseToEncodedCMessage slot | .release slot => .hand slot

/-- A step that reads no handles with a message shorter than a header and moves onto no
message that owns handles. -/
def Harmless (st : State) : Label → Prop
  | .read _ _ buffer packet =>
    (channelReadEtc buffer packet).isSome → packet.bytes.length < headerSize → packet.handles = []
  | .moveAssign target source => target ≠ source → ownedAt st target = []
  | _ => True

section Refinement

variable {consts : Constants} {asserts : Bool} {st next : State} {label : Label}

lemma ownedAt_put (slot : Nat) (object : Option Object) : ownedAt (st.put slot object) =
      Function.update (ownedAt st) slot ((object.map Object.owned).getD []) := by
  funext other
  simp only [ownedAt, State.put, Function.update_apply]
  split <;> rfl

@[simp] lemma owned_create : (EncodedMessage.create bytes).owned = [] := rfl

lemma closeHandles_owned (msg : EncodedMessage) : msg.closeHandles.2 = msg.owned := by
  unfold EncodedMessage.closeHandles
  split
  · rfl
  rename_i absent
  have none := msg.unowned (by simpa using absent)
  rw [EncodedMessage.owned, none, take_zero]

private lemma destroy_owned (object : Object) : object.destroy = object.owned := by
  cases object with
  | hlcpp msg => rfl
  | incoming msg => exact closeHandles_owned msg.body
  | encoded msg => exact closeHandles_owned msg

lemma take_overwrite {α : Type} (array new : List α) : (overwrite array new).take new.length = new := by
  rw [overwrite, take_left]

private lemma owned_movedOnto {source left : Object}
    (moved : source.movedOnto target = some left) : left.owned = [] := by
  unfold Object.movedOnto at moved
  split at moved <;> cases moved <;> rfl

lemma ownedAt_of_found (found : st.objects slot = some object) : ownedAt st slot = object.owned := by
  rw [ownedAt, found]
  rfl

lemma ownedAt_of_free (free : ¬ (st.objects slot).isSome) : ownedAt st slot = [] := by
  rw [ownedAt, not_isSome_iff_eq_none.mp free]
  rfl

lemma move_ledger {target source : Nat} (apart : target ≠ source)
    (moved : st.move target source = some next) : next.ledger = st.ledger.act (.transfer target source) := by
  obtain ⟨_, found, moved⟩ := bind_eq_some_iff.mp moved
  obtain ⟨left, leaves, rfl⟩ := map_eq_some_iff.mp moved
  have nothing : ((some left).map Object.owned).getD [] = [] := owned_movedOnto leaves
  rw [Custody.Ledger.act, if_neg apart]
  simp only [State.ledger, ownedAt_put, nothing, ownedAt_of_found found]
  rfl

/-- A message closes what it owns and owns nothing after that. -/
lemma close_ledger (found : st.objects slot = some object) (empty : (left.map Object.owned).getD [] = []) :
    { st.put slot left with closed := st.closed ++ object.owned }.ledger =
      st.ledger.act (.close slot) := by
  rw [← ownedAt_of_found found]
  simp only [Custody.Ledger.act, State.ledger]
  rw [← empty, ← ownedAt_put]
  rfl

lemma hand_ledger (found : st.objects slot = some object) (empty : (left.map Object.owned).getD [] = []) :
    { st.put slot left with handed := st.handed ++ object.owned }.ledger =
      st.ledger.act (.hand slot) := by
  rw [← ownedAt_of_found found]
  simp only [Custody.Ledger.act, State.ledger]
  rw [← empty, ← ownedAt_put]
  rfl

private lemma channelReadEtc_written (fits : channelReadEtc buffer packet = some result) :
    result = ⟨overwrite buffer.bytes packet.bytes, overwrite buffer.handles packet.handles⟩ := by
  unfold channelReadEtc at fits
  split at fits <;> cases fits
  rfl

/-- A message that stays in the channel leaves the new object without handles. -/
private lemma owned_read_of_stays (receiver : Receiver) (stays : channelReadEtc buffer packet = none) :
    (receiver.read consts buffer packet).owned = [] := by
  cases receiver with
  | hlcpp =>
    rw [Receiver.read, HLCPPIncomingMessage.read, stays]
    rfl
  | wire =>
    rw [Receiver.read, IncomingHeaderAndMessage.messageRead, stays]
    rfl

/-- Of a message that is read, the new object owns the handles unless it is too short. -/
private lemma owned_read_of_fits (receiver : Receiver) (fits : channelReadEtc buffer packet = some result) :
    (receiver.read consts buffer packet).owned =
      if packet.bytes.length < headerSize then [] else packet.handles := by
  have written := channelReadEtc_written fits
  subst written
  cases receiver with
  | hlcpp =>
    rw [Receiver.read, HLCPPIncomingMessage.read, fits]
    simp only
    split
    · rfl
    · exact take_overwrite buffer.handles packet.handles
  | wire =>
    rw [Receiver.read, IncomingHeaderAndMessage.messageRead, fits]
    simp only [Object.owned, IncomingHeaderAndMessage.construct, take_overwrite]
    by_cases short : packet.bytes.length < headerSize
    · rw [if_neg (Nat.not_le.mpr short), if_pos short, owned_create]
    · rw [if_pos (Nat.not_lt.mp short), if_neg short]
      exact take_overwrite buffer.handles packet.handles

private lemma read_ledger (free : ¬ (st.objects slot).isSome) :
    { st.put slot (some (receiver.read consts buffer packet)) with
        received := st.received ++
          if (channelReadEtc buffer packet).isSome then packet.handles else [] }.ledger =
      st.ledger.act (action consts st (.read receiver slot buffer packet)) := by
  have kept : Function.update (ownedAt st) slot [] = ownedAt st := by
    rw [← ownedAt_of_free free, Function.update_eq_self]
  have holds := @ownedAt_put st slot (some (receiver.read consts buffer packet))
  rw [map_some, getD_some] at holds
  cases fits : channelReadEtc buffer packet with
  | none =>
    rw [owned_read_of_stays receiver fits, kept] at holds
    simp only [State.ledger, action, fits, isSome_none, isNone_none, if_true,
      Bool.false_eq_true, if_false, append_nil, Custody.Ledger.act]
    rw [← holds]
    rfl
  | some =>
    rw [owned_read_of_fits receiver fits] at holds
    simp only [State.ledger, action, fits, isSome_some, isNone_some, if_true,
      Bool.false_eq_true, if_false]
    split
    next short =>
      rw [if_pos short, kept] at holds
      rw [← holds]
      rfl
    next long =>
      rw [if_neg long] at holds
      simp only [Custody.Ledger.act]
      rw [← holds]
      rfl

private lemma decode_ledger (found : st.objects slot = some (.hlcpp msg))
    (decoded : msg.decode consts = some (left, closed)) :
    { st.put slot (some (.hlcpp left)) with closed := st.closed ++ closed }.ledger =
      st.ledger.act (action consts st (.decode slot)) := by
  obtain ⟨_, present, decoded⟩ := map_eq_some_iff.mp decoded
  simp only [action, found, present, map_some]
  split at decoded <;> cases decoded
  next rejected =>
    simp only [rejected, Custody.Ledger.act]
    have holds := @ownedAt_put st slot (some (.hlcpp msg))
    rw [map_some, getD_some, ← ownedAt_of_found found, Function.update_eq_self] at holds
    simp only [State.ledger, append_nil]
    rw [← holds]
    rfl
  next accepted =>
    simp only [accepted]
    exact close_ledger found rfl

lemma step_ledger (moved : step consts asserts st label = some next) :
    next.ledger = st.ledger.act (action consts st label) ∧
      Custody.Valid st.ledger (action consts st label) := by
  cases label with
  | read _ slot =>
    simp only [step] at moved
    split at moved
    · cases moved
    rename_i guarded
    simp only [not_or, not_exists, not_and, Classical.not_not] at guarded
    obtain ⟨free, distinct, -, new⟩ := guarded
    cases moved
    refine ⟨read_ledger free, ?_⟩
    simp only [action]
    split
    · trivial
    · split <;> exact ⟨distinct, new⟩
  | moveConstruct target source =>
    simp only [step] at moved
    split at moved
    · cases moved
    rename_i free
    refine ⟨move_ledger ?_ moved, trivial⟩
    rintro rfl
    obtain ⟨object, found, -⟩ := bind_eq_some_iff.mp moved
    simp [found] at free
  | moveAssign target source =>
    simp only [step] at moved
    split at moved
    next same =>
      obtain ⟨_, _, rfl⟩ := map_eq_some_iff.mp moved
      exact ⟨(if_pos same).symm, trivial⟩
    next apart =>
      split at moved
      · cases moved
      · exact ⟨move_ledger apart moved, trivial⟩
  | destroy slot =>
    obtain ⟨object, found, rfl⟩ := map_eq_some_iff.mp moved
    rw [destroy_owned]
    exact ⟨close_ledger found rfl, trivial⟩
  | decode slot =>
    simp only [step] at moved
    split at moved
    next msg found =>
      obtain ⟨result, decoded, rfl⟩ := map_eq_some_iff.mp moved
      refine ⟨decode_ledger found decoded, ?_⟩
      simp only [action, found]
      split <;> trivial
    · cases moved
  | closeHandles slot =>
    simp only [step] at moved
    split at moved <;> cases moved <;> rename_i msg found
    · rw [closeHandles_owned]
      exact ⟨close_ledger found rfl, trivial⟩
    · rw [closeHandles_owned]
      exact ⟨close_ledger found rfl, trivial⟩
  | skipTransactionHeader target slot =>
    simp only [step] at moved
    split at moved
    next msg found =>
      split at moved <;> cases moved
      rename_i free
      have apart : target ≠ slot := by
        rintro rfl
        simp [found] at free
      refine ⟨?_, trivial⟩
      simp only [action, Custody.Ledger.act, if_neg apart]
      simp only [State.ledger, ownedAt_put, ownedAt_of_found found]
      rfl
    · cases moved
  | releaseToEncodedCMessage slot =>
    simp only [step] at moved
    split at moved
    next msg found =>
      obtain ⟨result, released, rfl⟩ := map_eq_some_iff.mp moved
      unfold IncomingHeaderAndMessage.releaseToEncodedCMessage at released
      split at released <;> cases released
      exact ⟨hand_ledger found rfl, trivial⟩
    · cases moved
  | release slot =>
    simp only [step] at moved
    split at moved
    next msg found =>
      obtain ⟨result, released, rfl⟩ := map_eq_some_iff.mp moved
      unfold EncodedMessage.release at released
      split at released <;> cases released
      exact ⟨hand_ledger found rfl, trivial⟩
    · cases moved

lemma harmless_action_iff (moved : step consts asserts st label = some next) :
    Custody.Harmless st.ledger (action consts st label) ↔ Harmless st label := by
  cases label with
  | read _ slot buffer packet =>
    simp only [step] at moved
    split at moved
    · cases moved
    rename_i guarded
    have free : ¬ (st.objects slot).isSome := fun taken => guarded (Or.inl taken)
    have empty := ownedAt_of_free free
    simp only [action, Harmless]
    cases fits : channelReadEtc buffer packet with
    | none => simp [Custody.Harmless]
    | some =>
      by_cases short : packet.bytes.length < headerSize
      · simp [Custody.Harmless, short]
      · simp [Custody.Harmless, short, State.ledger, empty]
  | moveConstruct target =>
    simp only [step] at moved
    split at moved
    · cases moved
    next free => exact iff_of_true (fun _ => ownedAt_of_free free) trivial
  | moveAssign | destroy | closeHandles | releaseToEncodedCMessage | release => exact Iff.rfl
  | decode slot =>
    simp only [action]
    split
    · split <;> trivial
    · trivial
  | skipTransactionHeader target slot =>
    simp only [step] at moved
    split at moved
    · split at moved
      · cases moved
      next free => exact iff_of_true (fun _ => ownedAt_of_free free) trivial
    · cases moved

end Refinement

/-- Along a history nothing is in two places, and nothing is lost exactly if every step is
harmless. -/
private lemma custody_of_run (ran : Machine.run (step consts asserts) {} labels = some final) :
    Custody.Sound final.ledger ∧
      (Custody.Accounted final.ledger ↔ Machine.Admissible (step consts asserts) Harmless {} labels) := by
  have start : Custody.Sound ({} : State).ledger := Custody.sound_start
  have keeps : ∀ st label next, Custody.Sound st.ledger →
      step consts asserts st label = some next → Custody.Sound next.ledger := by
    intro st label next sound moved
    obtain ⟨acted, valid⟩ := step_ledger moved
    rw [acted]
    exact sound.act valid
  refine ⟨@Machine.run_keeps _ _ (step consts asserts) (fun st => Custody.Sound st.ledger)
    _ _ _ keeps start ran, ?_⟩
  have settled : Custody.Accounted final.ledger ↔ Custody.Accounted ({} : State).ledger ∧
      Machine.Admissible (step consts asserts) Harmless {} labels := by
    refine @Machine.run_iff_admissible _ _ (step consts asserts) (fun st => Custody.Sound st.ledger)
      Harmless {} final labels (fun st => Custody.Accounted st.ledger) keeps ?_ start ran
    intro st label next sound moved
    obtain ⟨acted, valid⟩ := step_ledger moved
    rw [acted, Custody.accounted_act_iff sound valid, harmless_action_iff moved]
  rw [settled]
  exact and_iff_right fun handle mem => by cases mem

/-- Once every message is destroyed, every handle that was received has been closed or
handed to the caller, once in all, exactly if every step was harmless. -/
theorem handles_conserved_iff (consts : Constants) (asserts : Bool) (labels : List Label) (final : State)
    (ran : Machine.run (step consts asserts) {} labels = some final)
    (destroyed : ∀ slot, final.objects slot = none) :
    (∀ handle ∈ final.received, final.closed.count handle = 1 ∧ final.handed.count handle = 0 ∨
        final.closed.count handle = 0 ∧ final.handed.count handle = 1) ↔
      Machine.Admissible (step consts asserts) Harmless {} labels := by
  obtain ⟨sound, accounted⟩ := custody_of_run ran
  have unheld : ∀ slot, final.ledger.holds slot = [] := fun slot =>
    ownedAt_of_free (by simp [destroyed slot])
  obtain ⟨closedOnce, handedOnce, disjoint⟩ := nodup_append.mp sound.once
  rw [← accounted]
  refine forall_congr' fun handle => imp_congr_right fun _ => ?_
  constructor
  · rintro (⟨closed, -⟩ | ⟨-, handed⟩)
    · exact Or.inr (mem_append_left _ (count_pos_iff.mp (closed ▸ Nat.one_pos)))
    · exact Or.inr (mem_append_right _ (count_pos_iff.mp (handed ▸ Nat.one_pos)))
  · rintro (⟨slot, held⟩ | spent)
    · rw [unheld slot] at held
      cases held
    · rcases mem_append.mp spent with closed | handed
      · refine Or.inl ⟨count_eq_one_of_mem closedOnce closed, count_eq_zero.mpr fun handed => ?_⟩
        exact disjoint handle closed handle handed rfl
      · refine Or.inr ⟨count_eq_zero.mpr fun closed => ?_, count_eq_one_of_mem handedOnce handed⟩
        exact disjoint handle closed handle handed rfl

/-- The values of the constants in the current wire format. -/
def currentConstants : Constants := ⟨1, 2, 2 ^ 64 - 1⟩

/-- A message with a valid header, an empty body and two handles. -/
def headerOnly : Packet := ⟨[1, 0, 0, 0, 2, 0, 0, 1, 7, 0, 0, 0, 0, 0, 0, 0], [5, 6]⟩

def emptyBuffer : Buffer := ⟨List.replicate 16 0, [0, 0]⟩

theorem handles_conserved_by_release : ∃ final,
    Machine.run (step currentConstants true) {} [.read .wire 0 emptyBuffer headerOnly, .moveConstruct 1 0,
      .skipTransactionHeader 2 1, .release 2, .destroy 0, .destroy 1, .destroy 2] = some final ∧
    ∀ handle ∈ final.received,
      final.closed.count handle = 1 ∧ final.handed.count handle = 0 ∨
        final.closed.count handle = 0 ∧ final.handed.count handle = 1 := by
  refine ⟨_, rfl, (handles_conserved_iff currentConstants true
    [.read .wire 0 emptyBuffer headerOnly, .moveConstruct 1 0, .skipTransactionHeader 2 1, .release 2,
      .destroy 0, .destroy 1, .destroy 2] _ rfl ?_).mpr ?_⟩
  · rintro (_ | _ | _ | _) <;> rfl
  · rintro _ ⟨⟩
    refine ⟨?_, ?_⟩
    · intro _ short
      revert short
      decide
    iterate 5
      rintro _ ⟨⟩
      refine ⟨trivial, ?_⟩
    rintro _ ⟨⟩
    exact ⟨trivial, trivial⟩

/-- The handles of a message that is shorter than a header are lost with either receiver,
and so are those of a message that another one is moved onto. -/
theorem handles_lost :
    (∀ receiver, ∃ final,
      Machine.run (step currentConstants true) {} [.read receiver 0 emptyBuffer ⟨[], [5]⟩, .destroy 0] =
        some final ∧ final.received = [5] ∧ final.closed = [] ∧ final.handed = []) ∧
    ∀ receiver, ∃ final,
      Machine.run (step currentConstants true) {} [.read receiver 0 emptyBuffer headerOnly,
        .read receiver 1 emptyBuffer ⟨headerOnly.bytes, []⟩, .moveAssign 0 1, .destroy 0, .destroy 1] =
        some final ∧ final.received = [5, 6] ∧ final.closed = [] ∧ final.handed = [] := by
  refine ⟨fun receiver => ?_, fun receiver => ?_⟩
  · cases receiver with
    | hlcpp | wire => exact ⟨_, rfl, rfl, rfl, rfl⟩
  · cases receiver with
    | hlcpp | wire => exact ⟨_, rfl, rfl, rfl, rfl⟩

end FuchsiaSdk.IncomingMessages
