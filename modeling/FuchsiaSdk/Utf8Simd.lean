import FuchsiaSdk.Lanes
import FuchsiaSdk.Utf8Scalar

/-! The vectorized UTF-8 validator: the algorithm over an architecture's vectors, and
the three architectures. -/
namespace FuchsiaSdk.Utf8Simd
open Memory Lanes Utf8Scalar

/-! ## The algorithm -/

/-- The operations of an `ArchImpl` and its `Vector`. -/
structure ArchImpl where
  vectorSize : Nat
  fill : UInt8 → Lanes vectorSize
  /-- Of more elements than the vector holds, those in front are ignored. -/
  set32 : Vector UInt8 32 → Lanes vectorSize
  isAllZero : Lanes vectorSize → Bool
  isAscii : Lanes vectorSize → Bool
  or : Lanes vectorSize → Lanes vectorSize → Lanes vectorSize
  and : Lanes vectorSize → Lanes vectorSize → Lanes vectorSize
  xor : Lanes vectorSize → Lanes vectorSize → Lanes vectorSize
  saturatingSub : Lanes vectorSize → Lanes vectorSize → Lanes vectorSize
  shr4 : Lanes vectorSize → Lanes vectorSize
  /-- The vector, moved up by some lanes that are filled from the end of the previous one. -/
  prev : Nat → Lanes vectorSize → Lanes vectorSize → Lanes vectorSize
  lookup16 : Lanes vectorSize → Vector UInt8 16 → Lanes vectorSize
  check2Or3Continuation : Lanes vectorSize → Lanes vectorSize → Lanes vectorSize

def kTargetChunkSize : Nat := 64

def kTooShort : UInt8 := (1 : UInt8) <<< (0 : UInt8)
def kTooLong : UInt8 := (1 : UInt8) <<< (1 : UInt8)
def kOverlong2 : UInt8 := (1 : UInt8) <<< (2 : UInt8)
def kTooLarge1001 : UInt8 := (1 : UInt8) <<< (3 : UInt8)
def kSurrogate : UInt8 := (1 : UInt8) <<< (4 : UInt8)
def kOverlong3 : UInt8 := (1 : UInt8) <<< (5 : UInt8)
def kTooLarge1000 : UInt8 := (1 : UInt8) <<< (6 : UInt8)
def kOverlong4 : UInt8 := (1 : UInt8) <<< (6 : UInt8)
def kTwoContinuations : UInt8 := (1 : UInt8) <<< (7 : UInt8)
def kCarry : UInt8 := kTooShort ||| kTooLong ||| kTwoContinuations

/-- What the low half of the previous byte can be wrong with. -/
def byte1LoTable : Vector UInt8 16 :=
  #v[kCarry ||| kOverlong2 ||| kOverlong3 ||| kOverlong4, kCarry ||| kOverlong3, kCarry,
    kCarry, kCarry ||| kTooLarge1001, kCarry ||| kTooLarge1001 ||| kTooLarge1000,
    kCarry ||| kTooLarge1001 ||| kTooLarge1000, kCarry ||| kTooLarge1001 ||| kTooLarge1000,
    kCarry ||| kTooLarge1001 ||| kTooLarge1000, kCarry ||| kTooLarge1001 ||| kTooLarge1000,
    kCarry ||| kTooLarge1001 ||| kTooLarge1000, kCarry ||| kTooLarge1001 ||| kTooLarge1000,
    kCarry ||| kTooLarge1001 ||| kTooLarge1000,
    kCarry ||| kTooLarge1001 ||| kTooLarge1000 ||| kSurrogate,
    kCarry ||| kTooLarge1001 ||| kTooLarge1000, kCarry ||| kTooLarge1001 ||| kTooLarge1000]

def byte1HiTable : Vector UInt8 16 :=
  #v[kTooLong, kTooLong, kTooLong, kTooLong, kTooLong, kTooLong, kTooLong, kTooLong,
    kTwoContinuations, kTwoContinuations, kTwoContinuations, kTwoContinuations,
    kTooShort ||| kOverlong3, kTooShort, kTooShort ||| kOverlong2 ||| kSurrogate,
    kTooShort ||| kTooLarge1001 ||| kTooLarge1000 ||| kOverlong4]

def byte2HiTable : Vector UInt8 16 :=
  #v[kTooShort, kTooShort, kTooShort, kTooShort, kTooShort, kTooShort, kTooShort, kTooShort,
    kTooLong ||| kOverlong3 ||| kTwoContinuations ||| kOverlong2 ||| kTooLarge1000 ||| kOverlong4,
    kTooLong ||| kOverlong3 ||| kTwoContinuations ||| kOverlong2 ||| kTooLarge1001,
    kTooLong ||| kOverlong3 ||| kTwoContinuations ||| kSurrogate ||| kTooLarge1001,
    kTooLong ||| kOverlong3 ||| kTwoContinuations ||| kSurrogate ||| kTooLarge1001,
    kTooShort, kTooShort, kTooShort, kTooShort]

/-- The greatest bytes that can stand at the end of a string. -/
def incompleteTable : Vector UInt8 32 :=
  #v[0xFF, 0xFF, 0xFF, 0xFF, 0xFF, 0xFF, 0xFF, 0xFF, 0xFF, 0xFF, 0xFF, 0xFF, 0xFF, 0xFF, 0xFF,
    0xFF, 0xFF, 0xFF, 0xFF, 0xFF, 0xFF, 0xFF, 0xFF, 0xFF, 0xFF, 0xFF, 0xFF, 0xFF, 0xFF,
    0b11101111, 0b11011111, 0b10111111]

section

variable (arch : ArchImpl)

/-- `VectorChunk::GetVectorCount`. -/
def getVectorCount : Nat := max (kTargetChunkSize / arch.vectorSize) 1

/-- `VectorChunk::GetSize`. -/
def getSize : Nat := arch.vectorSize * getVectorCount arch

abbrev VectorChunk : Type := List (Lanes arch.vectorSize)

/-- `VectorChunk::LoadFromArray`. -/
def loadChunk (memory : Memory) (pos : Nat) : VectorChunk arch :=
  (List.range (getVectorCount arch)).map fun i =>
    loadu memory (pos + i * arch.vectorSize)

/-- `VectorChunk::IsAscii`. -/
def isAsciiChunk : VectorChunk arch → Bool
  | [first, second, third, fourth] =>
    arch.isAscii (arch.or (arch.or first second) (arch.or third fourth))
  | [first, second] => arch.isAscii (arch.or first second)
  | chunk => arch.isAscii (chunk.foldl arch.or (arch.fill 0))

/-- `VectorChunk::StoreToArray`. -/
def storeChunk (memory : Memory) (pos : Nat) : VectorChunk arch → Memory
  | [] => memory
  | vector :: rest => storeChunk (storeu memory pos vector) (pos + arch.vectorSize) rest

def classifyRules (cur prev : Lanes arch.vectorSize) : Lanes arch.vectorSize :=
  let prev1 := arch.prev 1 cur prev
  let byte1Lo := arch.lookup16 (arch.and prev1 (arch.fill 0xF)) byte1LoTable
  let byte1Hi := arch.lookup16 (arch.shr4 prev1) byte1HiTable
  let byte2Hi := arch.lookup16 (arch.shr4 cur) byte2HiTable
  arch.and (arch.and byte1Lo byte1Hi) byte2Hi

def checkMultiByte (cur prev : Lanes arch.vectorSize) : Lanes arch.vectorSize :=
  let prev2 := arch.prev 2 cur prev
  let prev3 := arch.prev 3 cur prev
  arch.and (arch.check2Or3Continuation prev2 prev3) (arch.fill 0x80)

def checkIncomplete (vector : Lanes arch.vectorSize) : Lanes arch.vectorSize :=
  arch.saturatingSub vector (arch.set32 incompleteTable)

/-- What is carried from chunk to chunk. -/
structure Progress where
  prev : Lanes arch.vectorSize
  error : Lanes arch.vectorSize

/-- The body of the loop over the vectors of a chunk. -/
def processVector (progress : Progress arch) (vector : Lanes arch.vectorSize) : Progress arch :=
  let ruleCheck := classifyRules arch vector progress.prev
  let multibyte := checkMultiByte arch vector progress.prev
  { prev := vector, error := arch.or progress.error (arch.xor ruleCheck multibyte) }

def processChunk (cur : VectorChunk arch) (progress : Progress arch) : Progress arch :=
  if isAsciiChunk arch cur then
    { prev := cur.getLast?.getD progress.prev,
      error := arch.or progress.error (checkIncomplete arch progress.prev) }
  else cur.foldl (processVector arch) progress

variable (doCopy : Bool) (src dst : Nat)

def copyChunk (cur : VectorChunk arch) (offset : Nat) (memory : Memory) : Memory :=
  if doCopy then storeChunk arch memory (dst + offset) cur else memory

/-- Where the loop over leading ASCII chunks stops. -/
structure FastPath where
  encounteredNonAscii : Bool
  /-- The chunks that are left. -/
  chunks : Nat
  offset : Nat
  memory : Memory

def fastPath : (chunks : Nat) → (offset : Nat) → Memory → FastPath
  | 0, offset, memory => ⟨false, 0, offset, memory⟩
  | chunks + 1, offset, memory =>
    let cur := loadChunk arch memory (src + offset)
    if !isAsciiChunk arch cur then ⟨true, chunks + 1, offset, memory⟩
    else fastPath chunks (offset + getSize arch) (copyChunk arch doCopy dst cur offset memory)

/-- The loop over the chunks from the first that is not ASCII on. -/
def processChunks : (chunks : Nat) → (offset : Nat) → Memory → Progress arch →
    Nat × Memory × Progress arch
  | 0, offset, memory, progress => (offset, memory, progress)
  | chunks + 1, offset, memory, progress =>
    let cur := loadChunk arch memory (src + offset)
    let memory := copyChunk arch doCopy dst cur offset memory
    processChunks chunks (offset + getSize arch) memory (processChunk arch cur progress)

/-- The scalar validator, which copies when asked to. -/
def runScalar (memory : Memory) (src : Option Nat) (dst size : Nat) : Bool × Memory :=
  if doCopy then validateAndCopyUtf8Scalar memory src dst size
  else (isValidUtf8Scalar (src.map fun src => load memory src size), memory)

/-- The check for a code point that is cut off at the end. -/
def finish (progress : Progress arch) : Bool :=
  arch.isAllZero (if !arch.isAscii progress.prev then
    arch.or progress.error (checkIncomplete arch progress.prev) else progress.error)

def kSmallStringSize : Nat := getSize arch * 3 / 2

def runValidateAndCopyUtf8Simd (memory : Memory) (src : Option Nat) (dst size : Nat) :
    Bool × Memory :=
  if size < kSmallStringSize arch then runScalar doCopy memory src dst size
  else
    match src with
    | none => (false, memory)
    | some src =>
      let fast := fastPath arch doCopy src dst (size / getSize arch) 0 memory
      let (offset, memory, progress) := processChunks arch doCopy src dst fast.chunks fast.offset
        fast.memory ⟨arch.fill 0, arch.fill 0⟩
      if offset < size then
        if !fast.encounteredNonAscii then
          runScalar doCopy memory (some (src + offset)) (dst + offset) (size - offset)
        else
          let rest := load memory (src + offset) (size - offset)
          let cur := loadChunk arch (ofBytes rest) 0
          let memory := if doCopy then store memory (dst + offset) rest else memory
          (finish arch (processChunk arch cur progress), memory)
      else (finish arch progress, memory)

def isValidUtf8Simd (memory : Memory) (data : Option Nat) (size : Nat) : Bool :=
  (runValidateAndCopyUtf8Simd arch false memory data 0 size).1

def validateAndCopyUtf8Simd (memory : Memory) (src : Option Nat) (dst size : Nat) : Bool × Memory :=
  runValidateAndCopyUtf8Simd arch true memory src dst size

end

/-! ## The architectures -/

def setRepeat16 {count : Nat} (vals : Vector UInt8 16) : Lanes count := fun lane =>
  vals.get ⟨lane.val % 16, Nat.mod_lt _ (by omega)⟩

/-- The last sixteen elements. -/
def setLast16 (vals : Vector UInt8 32) : Lanes 16 := fun lane =>
  vals.get ⟨16 + lane.val, by omega⟩

/-- Both x86 architectures find the third and fourth bytes by a signed comparison. -/
def x86Check2Or3Continuation {count : Nat} (prev2 prev3 : Lanes count) : Lanes count :=
  let isThirdByte := prev2.saturatingSub (dup 0b11011111)
  let isFourthByte := prev3.saturatingSub (dup 0b11101111)
  cmpgtEpi8 (isThirdByte.or isFourthByte) (dup 0)

/-- Shift in 16-bit mode and then mask off the top bits left over. -/
def x86Shr4 {count : Nat} (vector : Lanes count) : Lanes count :=
  (srliEpi16 vector 4).and (dup 0x0F)

def avx2 : ArchImpl where
  vectorSize := 32
  fill := dup
  set32 vals := fun lane => vals.get lane
  isAllZero vector := testz vector vector != 0
  isAscii vector := movemaskEpi8 vector == 0
  or := Lanes.or
  and := Lanes.and
  xor := Lanes.xor
  saturatingSub := Lanes.saturatingSub
  shr4 := x86Shr4
  prev count cur prev := alignr256Epi8 cur (permute2x128 prev cur 0b100001) (16 - count)
  lookup16 vector table := shuffle256Epi8 (setRepeat16 table) vector
  check2Or3Continuation := x86Check2Or3Continuation

def ssse3 : ArchImpl where
  vectorSize := 16
  fill := dup
  set32 := setLast16
  isAllZero vector := testz vector vector != 0
  isAscii vector := movemaskEpi8 vector == 0
  or := Lanes.or
  and := Lanes.and
  xor := Lanes.xor
  saturatingSub := Lanes.saturatingSub
  shr4 := x86Shr4
  prev count cur prev := alignrEpi8 cur prev (16 - count)
  lookup16 vector table := shuffleEpi8 (setRepeat16 table) vector
  check2Or3Continuation := x86Check2Or3Continuation

def neon : ArchImpl where
  vectorSize := 16
  fill := dup
  set32 := setLast16
  isAllZero vector := vmaxvqU8 vector == 0
  isAscii vector := vmaxvqU8 vector < 0b10000000
  or := Lanes.or
  and := Lanes.and
  xor := Lanes.xor
  saturatingSub := Lanes.saturatingSub
  shr4 vector := vshrqNU8 vector 4
  prev count cur prev := vextqU8 prev cur (16 - count)
  lookup16 vector table := vqtbl1qU8 (setRepeat16 table) vector
  check2Or3Continuation prev2 prev3 :=
    let isThirdByte := vcgtqU8 prev2 (dup 0b11011111)
    let isFourthByte := vcgtqU8 prev3 (dup 0b11101111)
    isThirdByte.or isFourthByte

end FuchsiaSdk.Utf8Simd
