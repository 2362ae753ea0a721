import FuchsiaSdk.Memory

/-! Structured log records: the encoder that writes a record into the words of a
`LogBuffer`, and a parser for the documented layout. -/
namespace FuchsiaSdk.LogRecord
open Memory

/-! ## Fields of a word -/

/-- The bits of a word from the first to the last. -/
structure Field where
  first : Nat
  last : Nat

def Field.kMask (field : Field) : Nat := (1 <<< (field.last - field.first + 1)) - 1

/-- A shift of a `uint64_t`, which cuts nothing off at the field's own end. -/
def Field.make (field : Field) (value : Nat) : Nat := value <<< field.first % 2 ^ 64

def Field.get (field : Field) (word : Nat) : Nat := word >>> (field.first % 64) &&& field.kMask

namespace HeaderFields

def type : Field := ⟨0, 3⟩
def sizeWords : Field := ⟨4, 15⟩
def reserved : Field := ⟨16, 55⟩
def severity : Field := ⟨56, 63⟩

end HeaderFields

namespace ArgumentFields

def type : Field := ⟨0, 3⟩
def sizeWords : Field := ⟨4, 15⟩
def nameRefVal : Field := ⟨16, 30⟩
def nameRefMSB : Field := ⟨31, 31⟩

end ArgumentFields

def boolArgumentValue : Field := ⟨32, 32⟩
def stringArgumentValueRef : Field := ⟨32, 47⟩
def reservedValue : Field := ⟨32, 63⟩

/-! ## The buffer -/

/-- `FUCHSIA_SYSLOG_BUFFER_SIZE`, in words. -/
def bufferSize : Nat := (1 <<< 15) / 8

/-- A value of an argument; a `double` is given by its bits. -/
inductive Value where
  | int64 (value : Int64)
  | uint64 (value : UInt64)
  | double (bits : UInt64)
  | string (bytes : List UInt8)
  | bool (value : Bool)
  deriving DecidableEq

/-- The words of a `LogBuffer` and the parts of its `RecordState` that are read again.
Positions are counted in words. -/
structure LogBuffer where
  data : Memory
  header : Nat
  rawSeverity : Int8
  argSize : Nat
  currentKeySize : Nat
  currentHeaderPosition : Nat
  cursor : Nat
  encodeSuccess : Bool
  ended : Bool

def getWord (data : Memory) (i : Nat) : Nat := word data (8 * i) 8

def setWord (data : Memory) (i value : Nat) : Memory :=
  store data (8 * i) (littleEndian 8 value)

/-- `WritePaddedInternal`, with the number of words it writes. -/
def writePaddedInternal (data : Memory) (pos : Nat) (msg : List UInt8) : Memory × Nat :=
  if msg.length = 0 then (data, 0)
  else
    let needsPadding := if 0 < msg.length % 8 then 1 else 0
    let padding := (8 - msg.length % 8) * needsPadding
    let eofInWords := (msg.length + padding) / 8
    let lastWord := eofInWords - 1
    -- The last word is zeroed before the bytes are copied, if they do not fill it.
    let data := setWord data (pos + lastWord)
      (getWord data (pos + lastWord) * (1 - needsPadding))
    (store data (8 * pos) msg, eofInWords)

def inBounds (st : LogBuffer) (off : Nat) : Bool := !(off + st.cursor ≥ bufferSize)

/-- `ExternalDataBuffer::Write` of one word, and what it does to `encode_success`. -/
def write (st : LogBuffer) (value : Nat) : LogBuffer :=
  if inBounds st 1 then
    { st with data := setWord st.data st.cursor value, cursor := st.cursor + 1 }
  else { st with encodeSuccess := false }

/-- `ExternalDataBuffer::WritePadded`, with the words written. -/
def writePadded (st : LogBuffer) (msg : List UInt8) : LogBuffer × Nat :=
  let wordCount := msg.length / 8 + if 0 < msg.length % 8 then 1 else 0
  if inBounds st wordCount then
    let (data, written) := writePaddedInternal st.data st.cursor msg
    ({ st with data, cursor := st.cursor + written }, written)
  else ({ st with encodeSuccess := false }, 0)

/-! ## The encoder -/

/-- `Encoder::Begin`. -/
def encoderBegin (st : LogBuffer) (timestamp : UInt64) (severity : Int8) : LogBuffer :=
  let st := { st with rawSeverity := severity, header := st.cursor }
  let st := write st 0
  write st timestamp.toNat

def flushPreviousArgument (st : LogBuffer) : LogBuffer := { st with argSize := 0 }

def appendArgumentKey (st : LogBuffer) (key : List UInt8) : LogBuffer :=
  let st := flushPreviousArgument st
  let headerPosition := st.cursor
  let st := write st 0
  let written := writePadded st key
  { written.1 with
    argSize := written.2 + 1, currentKeySize := key.length,
    currentHeaderPosition := headerPosition }

def computeArgHeader (st : LogBuffer) (type : Nat) : Nat :=
  ArgumentFields.type.make type ||| ArgumentFields.sizeWords.make st.argSize |||
    ArgumentFields.nameRefVal.make st.currentKeySize |||
    ArgumentFields.nameRefMSB.make (if 0 < st.currentKeySize then 1 else 0) |||
    reservedValue.make 0

/-- An assignment through `current_header_position`. -/
def setArgHeader (st : LogBuffer) (value : Nat) : LogBuffer :=
  { st with data := setWord st.data st.currentHeaderPosition value }

/-- `WordOffset::operator++(int)`: the sum is returned, and the offset stays as it is. -/
def postIncrement (off : Nat) : Nat := off + 1

/-- The overloads of `AppendArgumentValue`. -/
def appendArgumentValue (st : LogBuffer) : Value → LogBuffer
  | .int64 value =>
    let st := write st value.toUInt64.toNat
    -- Here the result of `arg_size++` is not assigned to anything.
    let _ := postIncrement st.argSize
    setArgHeader st (computeArgHeader st 3)
  | .uint64 value =>
    let st := write st value.toNat
    let st := { st with argSize := postIncrement st.argSize }
    setArgHeader st (computeArgHeader st 4)
  | .double bits =>
    let st := write st bits.toNat
    let st := { st with argSize := postIncrement st.argSize }
    setArgHeader st (computeArgHeader st 5)
  | .string bytes =>
    let written := writePadded st bytes
    let st := { written.1 with argSize := written.1.argSize + written.2 }
    let valueRef := if 0 < bytes.length then (1 <<< 15) ||| bytes.length else 0
    setArgHeader st (computeArgHeader st 6 ||| stringArgumentValueRef.make valueRef)
  | .bool value =>
    setArgHeader st (computeArgHeader st 9 ||| boolArgumentValue.make value.toNat)

/-- The word that an integer is cast to. -/
def severityWord (severity : Int8) : Nat := severity.toInt64.toUInt64.toNat

/-- `Encoder::End`. -/
def encoderEnd (st : LogBuffer) : LogBuffer :=
  let st := flushPreviousArgument st
  let header := HeaderFields.type.make 9 |||
    HeaderFields.sizeWords.make (st.cursor - st.header) |||
    HeaderFields.reserved.make 0 ||| HeaderFields.severity.make (severityWord st.rawSeverity)
  { st with data := setWord st.data st.header header }

/-! ## Log buffers -/

def text (chars : List Char) : List UInt8 := chars.map fun char => .ofNat char.toNat

def kMessageFieldName : List UInt8 := text ['m', 'e', 's', 's', 'a', 'g', 'e']
def kVerbosityFieldName : List UInt8 := text ['v', 'e', 'r', 'b', 'o', 's', 'i', 't', 'y']
def kPidFieldName : List UInt8 := text ['p', 'i', 'd']
def kTidFieldName : List UInt8 := text ['t', 'i', 'd']
def kDroppedLogsFieldName : List UInt8 :=
  text ['d', 'r', 'o', 'p', 'p', 'e', 'd', '_', 'l', 'o', 'g', 's']
def kFileFieldName : List UInt8 := text ['f', 'i', 'l', 'e']
def kLineFieldName : List UInt8 := text ['l', 'i', 'n', 'e']

/-- `StripDots`, for a path that is followed by a null character. -/
def stripDots : List UInt8 → List UInt8
  | 0x2E :: 0x2E :: 0x2F :: rest => stripDots rest
  | path => path

/-- `FUCHSIA_LOG_DEBUG`. -/
def logDebug : Int8 := 0x20

/-- A severity that the FIDL definition does not have. -/
def Unlisted (severity : Int8) : Prop :=
  severity.toInt % 0x10 ≠ 0 ∨ severity.toInt > 0x60 ∨ severity.toInt < 0x10

instance (severity : Int8) : Decidable (Unlisted severity) :=
  inferInstanceAs (Decidable (_ ∨ _ ∨ _))

/-- The arguments of `BeginRecord`, and the time that it reads. -/
structure RecordStart where
  severity : Int8
  fileName : Option (List UInt8)
  line : UInt32
  message : Option (List UInt8)
  droppedCount : UInt32
  pid : UInt64
  tid : UInt64
  time : UInt64

structure Argument where
  key : List UInt8
  value : Value
  deriving DecidableEq

/-- The key of an argument, and then its value. -/
def append (st : LogBuffer) (arg : Argument) : LogBuffer :=
  appendArgumentValue (appendArgumentKey st arg.key) arg.value

def appendOptional (st : LogBuffer) (arg : Option Argument) : LogBuffer :=
  match arg with
  | some arg => append st arg
  | none => st

/-- `LogBuffer::BeginRecord`, over whatever the words of the buffer hold. -/
def beginRecord (data : Memory) (start : RecordStart) : LogBuffer :=
  let (severity, rawSeverity) :=
    if Unlisted start.severity then (logDebug, some start.severity) else (start.severity, none)
  let st : LogBuffer :=
    { data, header := 0, rawSeverity := severity, argSize := 0, currentKeySize := 0,
      currentHeaderPosition := 0, cursor := 0, encodeSuccess := true, ended := false }
  let st := encoderBegin st start.time severity
  let st := append st ⟨kPidFieldName, .uint64 start.pid⟩
  let st := append st ⟨kTidFieldName, .uint64 start.tid⟩
  let st := appendOptional st
    (rawSeverity.map fun severity => ⟨kVerbosityFieldName, .int64 severity.toInt64⟩)
  let st := appendOptional st
    (if start.droppedCount ≠ 0 then
      some ⟨kDroppedLogsFieldName, .uint64 start.droppedCount.toUInt64⟩ else none)
  let st := appendOptional st
    (start.message.map fun message => ⟨kMessageFieldName, .string message⟩)
  let st := appendOptional st
    (start.fileName.map fun fileName => ⟨kFileFieldName, .string (stripDots fileName)⟩)
  append st ⟨kLineFieldName, .uint64 start.line.toUInt64⟩

/-- The overloads of `LogBuffer::WriteKeyValue`. -/
def writeKeyValue (st : LogBuffer) (key : List UInt8) (value : Value) : LogBuffer :=
  append st ⟨key, value⟩

/-- `LogBuffer::EndRecord`. -/
def endRecord (st : LogBuffer) : LogBuffer :=
  if st.ended then st else encoderEnd { st with ended := true }

def zxErrBadState : Int := -20
def zxErrPeerClosed : Int := -24

/-- `LogBuffer::FlushRecord`, with what is written to the socket; `status` is the socket's
answer. -/
def flushRecord (st : LogBuffer) (status : Int) : LogBuffer × Bool × Option (List UInt8) :=
  let st := endRecord st
  if !st.encodeSuccess then (st, false, none)
  else
    (st, status ≠ zxErrBadState ∧ status ≠ zxErrPeerClosed,
      some (load st.data 0 (8 * st.cursor)))

/-- A record that is begun and given some pairs. -/
def record (data : Memory) (start : RecordStart) (pairs : List Argument) : LogBuffer :=
  pairs.foldl (fun st pair => writeKeyValue st pair.key pair.value) (beginRecord data start)

/-! ## The documented layout -/

/-- A word and the bytes after it. -/
def takeWord (bytes : List UInt8) : Option (Nat × List UInt8) :=
  if 8 ≤ bytes.length then some (ofLittleEndian (bytes.take 8), bytes.drop 8) else none

/-- A string reference: the empty string, or a string that follows and is padded to words. -/
def takeString (inline length : Nat) (bytes : List UInt8) : Option (List UInt8 × List UInt8) :=
  if inline = 1 then
    if align length ≤ bytes.length then some (bytes.take length, bytes.drop (align length)) else none
  else if length = 0 then some ([], bytes) else none

/-- A value of one word that nothing follows. -/
def parseWord (bytes : List UInt8) : Option UInt64 := do
  let (value, rest) ← takeWord bytes
  if rest = [] then some (.ofNat value) else none

/-- The value that a header describes, which takes all of the bytes. -/
def parseValue (header : Nat) (bytes : List UInt8) : Option Value :=
  match ArgumentFields.type.get header with
  | 3 => (parseWord bytes).map fun value => .int64 value.toInt64
  | 4 => (parseWord bytes).map .uint64
  | 5 => (parseWord bytes).map .double
  | 6 => do
    let reference := stringArgumentValueRef.get header
    let (value, rest) ← takeString (reference / 2 ^ 15) (reference % 2 ^ 15) bytes
    if rest = [] then some (.string value) else none
  | 9 => if bytes = [] then some (.bool (boolArgumentValue.get header = 1)) else none
  | _ => none

/-- An argument of as many words as its header says, and the bytes after it. -/
def parseArgument (bytes : List UInt8) : Option (Argument × List UInt8) := do
  let (header, _) ← takeWord bytes
  let size := 8 * ArgumentFields.sizeWords.get header
  if 8 ≤ size ∧ size ≤ bytes.length then
    let (key, value) ← takeString (ArgumentFields.nameRefMSB.get header)
      (ArgumentFields.nameRefVal.get header) ((bytes.take size).drop 8)
    let value ← parseValue header value
    some (⟨key, value⟩, bytes.drop size)
  else none

def parseArguments : (fuel : Nat) → List UInt8 → Option (List Argument)
  | _, [] => some []
  | 0, _ => none
  | fuel + 1, bytes => do
    let (arg, rest) ← parseArgument bytes
    let arguments ← parseArguments fuel rest
    some (arg :: arguments)

structure Record where
  severity : Nat
  timestamp : Nat
  arguments : List Argument
  deriving DecidableEq

/-- A record, which takes all of the bytes. -/
def parseRecord (bytes : List UInt8) : Option Record := do
  let (header, rest) ← takeWord bytes
  if HeaderFields.type.get header = 9 ∧ 8 * HeaderFields.sizeWords.get header = bytes.length then
    let (timestamp, rest) ← takeWord rest
    -- Every argument takes a word at least.
    let arguments ← parseArguments (rest.length / 8) rest
    some ⟨HeaderFields.severity.get header, timestamp, arguments⟩
  else none

end FuchsiaSdk.LogRecord
