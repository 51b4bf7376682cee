import TreeMiner.Host.Argon2
import TreeMiner.Host.Finalize
import TreeMiner.Kernel.Blake2b
import TreeMiner.Lib.Pitch

/-! `KernelRunner`: the pool of a device, what is staged for it, and the stream that works on
them. The driver may fail at every call, and runs what is queued on the stream in order but
whenever it likes. -/

namespace TreeMiner.Gpu

open Host Lib
open Kernel (Bytes writeList)
open Kernel.Blake2b (bytesOf)

/-- How a call ends that has no result. -/
inductive CallError
  | failed (call : String)
  | gpu (failure : Failure GpuError)
deriving DecidableEq, Repr

/-- `GpuError::Invalid` -/
def CallError.invalid (message : String) : CallError := .gpu (.error (.invalid message))

/-- What the driver and the machine do at one fallible step. -/
structure Turn where
  /-- How many queued operations the device has run by then. -/
  ran : Nat := 0
  fails : Bool := false
  /-- A failing call has queued its operation all the same. -/
  queued : Bool := false
  /-- What a host or staging buffer shows, half written, to operations that run meanwhile. -/
  torn : List Bytes := []
  /-- What stands in a fresh allocation, or where a write has failed. -/
  bytes : Bytes := fun _ => 0
  address : Nat := 0

/-- A range of a buffer that is read or written, and the size the buffer was allocated with. -/
structure Access where
  start : Nat
  length : Nat
  size : Nat
deriving DecidableEq, Repr

def Access.InBounds (a : Access) : Prop := a.start + a.length ≤ a.size

instance : DecidablePred Access.InBounds := fun _ => Nat.decLe _ _

/-- A host `Vec<u8>`. -/
structure HostBuffer where
  size : Nat
  bytes : Bytes

structure DeviceBuffer where
  address : Nat
  size : Nat
  bytes : Bytes

/-- The device code: the two first blocks of a job out of its password and salt, and the
bytes of its memory out of these two blocks. -/
structure Kernels where
  firstBlocks : Argon2Shape → List UInt8 → List UInt8 → Nat → UInt8
  oneshot : UInt32 → List UInt8 → Nat → UInt8

/-- What a queued launch of the first blocks was prepared with. -/
structure FirstBlockConfig where
  keyLength : UInt32
  saltLength : UInt32
  shape : Argon2Shape

/-- The numbers of a `memcpy_2d_async`; its destination starts at offset zero. -/
structure Copy2D where
  dpitch : Nat
  source : Nat
  spitch : Nat
  width : Nat
  height : Nat

/-- What is queued on the stream. -/
inductive Operation
  | copyInput (copy : Copy2D)
  | firstBlocks (keys salt : Nat) (config : FirstBlockConfig) (segmentBlocks : UInt32)
    (batchSize : Nat)
  | oneshot (segmentBlocks : UInt32) (batchSize : Nat)
  | copyOutput (copy : Copy2D)

structure KernelRunner where
  stream : List Operation
  memory : DeviceBuffer
  deviceKeys : Option DeviceBuffer
  deviceSalt : Option DeviceBuffer
  shape : Argon2Shape
  /-- The segment size the pool was sized for. -/
  allocatedSegmentBlocks : UInt32
  batchSize : Nat
  blocksIn : HostBuffer
  blocksOut : HostBuffer
  pendingFirstBlocks : Option FirstBlockConfig
  lastUsedDeviceFirstBlocks : Bool

/-! ## Operations -/

/-- Bytes between one job and the next, as the kernels compute them. -/
def stride (segmentBlocks : UInt32) : Nat := (4 * segmentBlocks).toNat * ARGON2_BLOCK_SIZE

/-- Bytes of a job's first blocks. -/
def inputBytes : Nat := INPUT_BLOCKS_PER_JOB * ARGON2_BLOCK_SIZE

/-- The buffers of a runner as they were allocated. -/
structure Extents where
  memory : Nat
  keys : Option (Nat × Nat)
  salt : Option (Nat × Nat)
  blocksIn : Nat
  blocksOut : Nat

def DeviceBuffer.extent (buffer : DeviceBuffer) : Nat × Nat := (buffer.address, buffer.size)

def KernelRunner.extents (self : KernelRunner) : Extents where
  memory := self.memory.size
  keys := self.deviceKeys.map DeviceBuffer.extent
  salt := self.deviceSalt.map DeviceBuffer.extent
  blocksIn := self.blocksIn.size
  blocksOut := self.blocksOut.size

/-- How much is allocated at an address: nothing, once it was freed. -/
def sizeAt (extent : Option (Nat × Nat)) (address : Nat) : Nat :=
  match extent with
  | some (live, size) => if live = address then size else 0
  | none => 0

/-- The rows of a copy on one side of it. -/
def Copy2D.rows (copy : Copy2D) (start pitch size : Nat) : List Access :=
  (List.range copy.height).map fun row => ⟨start + row * pitch, copy.width, size⟩

/-- The ranges an operation reads and writes. -/
def Operation.accesses (extents : Extents) : Operation → List Access
  | .copyInput copy =>
    copy.rows 0 copy.dpitch extents.memory ++ copy.rows copy.source copy.spitch extents.blocksIn
  | .firstBlocks keys salt config segmentBlocks batchSize =>
    (List.range batchSize).flatMap fun job =>
      [⟨job * config.keyLength.toNat, config.keyLength.toNat, sizeAt extents.keys keys⟩,
        ⟨0, config.saltLength.toNat, sizeAt extents.salt salt⟩,
        ⟨job * stride segmentBlocks, inputBytes, extents.memory⟩]
  | .oneshot segmentBlocks batchSize =>
    (List.range batchSize).map fun job =>
      ⟨job * stride segmentBlocks, stride segmentBlocks, extents.memory⟩
  | .copyOutput copy =>
    copy.rows 0 copy.dpitch extents.blocksOut ++ copy.rows copy.source copy.spitch extents.memory

def Copy2D.perform (copy : Copy2D) (source destination : Bytes) : Bytes :=
  setRows copy.dpitch copy.height 0 copy.width
    (fun row column => source (copy.source + row * copy.spitch + column)) destination

/-- What a staging buffer holds. -/
def stagedBytes : Option DeviceBuffer → Bytes
  | some buffer => buffer.bytes
  | none => fun _ => 0

def KernelRunner.setMemory (self : KernelRunner) (bytes : Bytes) : KernelRunner :=
  { self with memory := { self.memory with bytes } }

def KernelRunner.setBlocksIn (self : KernelRunner) (bytes : Bytes) : KernelRunner :=
  { self with blocksIn := { self.blocksIn with bytes } }

def KernelRunner.setBlocksOut (self : KernelRunner) (bytes : Bytes) : KernelRunner :=
  { self with blocksOut := { self.blocksOut with bytes } }

section

variable (kernels : Kernels)

/-- The device runs an operation. -/
def Operation.perform (self : KernelRunner) : Operation → KernelRunner
  | .copyInput copy => self.setMemory (copy.perform self.blocksIn.bytes self.memory.bytes)
  | .firstBlocks _ _ config segmentBlocks batchSize =>
    let keyLength := config.keyLength.toNat
    let salt := bytesOf (stagedBytes self.deviceSalt) config.saltLength.toNat
    self.setMemory (setRows (stride segmentBlocks) batchSize 0 inputBytes
      (fun job => kernels.firstBlocks config.shape
        (bytesOf (fun i => stagedBytes self.deviceKeys (job * keyLength + i)) keyLength) salt)
      self.memory.bytes)
  | .oneshot segmentBlocks batchSize =>
    let memory := self.memory.bytes
    let stride := stride segmentBlocks
    self.setMemory (setRows stride batchSize inputBytes stride
      (fun job => kernels.oneshot segmentBlocks
        (bytesOf (fun i => memory (job * stride + i)) inputBytes)) memory)
  | .copyOutput copy => self.setBlocksOut (copy.perform self.memory.bytes self.blocksOut.bytes)

/-! ## The driver -/

/-- A device, what the driver will do at the next steps, and the ranges touched so far. -/
structure World (ρ : Type) where
  device : ρ
  turns : List Turn
  log : List Access

abbrev Call (ρ : Type) := ExceptT CallError (StateM (World ρ))

def World.over {ρ : Type} (w : World ρ) (f : ρ → ρ) : World ρ := { w with device := f w.device }

/-- The device runs the first operations of its stream. -/
def World.retire : Nat → World KernelRunner → World KernelRunner
  | 0, w => w
  | n + 1, w =>
    match w.device.stream with
    | [] => w
    | operation :: stream =>
      retire n { w with
        device := operation.perform kernels { w.device with stream }
        log := w.log ++ operation.accesses w.device.extents }

/-- The device runs all of its stream. -/
def World.drain (w : World KernelRunner) : World KernelRunner :=
  w.retire kernels w.device.stream.length

/-- Operations run while a buffer is being written. -/
def World.race (write : Bytes → KernelRunner → KernelRunner) (torn : List Bytes)
    (w : World KernelRunner) : World KernelRunner :=
  torn.foldl (fun w bytes => (w.over (write bytes)).retire kernels 1) w

variable {ρ : Type}

def takeTurn : Call ρ Turn := do
  let w ← get
  set { w with turns := w.turns.tail }
  return w.turns.headD {}

def Turn.check (turn : Turn) (call : String) : Call ρ Unit :=
  if turn.fails then throw (.failed call) else pure ()

/-- A call into the driver that queues no work. -/
def driverCall (call : String) : Call KernelRunner Unit := do
  let turn ← takeTurn
  modify (World.retire kernels turn.ran)
  turn.check call

/-- A call that queues an operation. -/
def enqueue (call : String) (operation : KernelRunner → Operation) : Call KernelRunner Unit := do
  let turn ← takeTurn
  modify (World.retire kernels turn.ran)
  if turn.fails && !turn.queued then throw (.failed call)
  else do
    modify (World.over · fun self => { self with stream := self.stream ++ [operation self] })
    turn.check call

def synchronize : Call KernelRunner Unit := do
  let turn ← takeTurn
  if turn.fails then do
    modify (World.retire kernels turn.ran)
    throw (.failed "hipStreamSynchronize")
  else modify (World.drain kernels)

/-! ## Staging -/

/-- The buffers passwords and salt are staged in. -/
inductive Staging
  | keys
  | salt

def Staging.missing : Staging → String
  | .keys => "key buffer missing"
  | .salt => "salt buffer missing"

def KernelRunner.staged (self : KernelRunner) : Staging → Option DeviceBuffer
  | .keys => self.deviceKeys
  | .salt => self.deviceSalt

def KernelRunner.setStaged (self : KernelRunner) (buffer : Option DeviceBuffer) :
    Staging → KernelRunner
  | .keys => { self with deviceKeys := buffer }
  | .salt => { self with deviceSalt := buffer }

/-- A staging buffer is dropped. Freeing memory waits for the device. -/
def World.free (staging : Staging) (w : World KernelRunner) : World KernelRunner :=
  if (w.device.staged staging).isSome then
    (w.drain kernels).over (·.setStaged none staging)
  else w

/-- Grow-only: a buffer that is large enough stays. -/
def reserve (staging : Staging) (length : Nat) : Call KernelRunner Unit := do
  let w ← get
  if (w.device.staged staging).any (length ≤ ·.size) then pure ()
  else do
    modify (World.free kernels staging)
    let turn ← takeTurn
    modify (World.retire kernels turn.ran)
    turn.check "hipMalloc"
    modify (World.over · (·.setStaged (some ⟨turn.address, length, turn.bytes⟩) staging))

def copyFromHost (staging : Staging) (source : List UInt8) : Call KernelRunner Unit := do
  let w ← get
  match w.device.staged staging with
  | none => throw (.invalid staging.missing)
  | some buffer =>
    if buffer.size < source.length then
      throw (.invalid
        s!"host->device copy of {source.length} bytes into a {buffer.size}-byte buffer")
    else do
      let turn ← takeTurn
      let write := fun bytes (self : KernelRunner) =>
        self.setStaged (some { buffer with bytes }) staging
      modify (World.race kernels write turn.torn)
      modify fun w => { w.over (write (if turn.fails then turn.bytes
          else writeList buffer.bytes 0 source)) with
        log := w.log ++ [⟨0, source.length, source.length⟩, ⟨0, source.length, buffer.size⟩] }
      turn.check "hipMemcpy"

def keyBytes (password : String) : List UInt8 := password.toUTF8.data.toList

/-- The length of the passwords, where the kernel implements the shape of the request. -/
def deviceKeyLength (batchSize : Nat) (passwords : List String) (salt : List UInt8)
    (shape : Argon2Shape) : Option Nat :=
  if passwords.isEmpty || passwords.length != batchSize ||
      shape.outputLength.toNat != DEFAULT_HASH_LENGTH || shape.passes != 1 || shape.lanes != 1 ||
      salt.isEmpty || decide (2 ^ 32 ≤ salt.length) then none
  else
    let keyLength := (keyBytes (passwords.headD "")).length
    if keyLength = 0 ∨ 2 ^ 32 ≤ keyLength then none
    else if passwords.any fun password => (keyBytes password).length != keyLength then none
    else some keyLength

/-- The result says whether the kernel implements the shape of the request. -/
def prepareInputBlocksOnDevice (passwords : List String) (salt : List UInt8)
    (shape : Argon2Shape) : Call KernelRunner Bool := do
  modify (World.over · fun self => { self with pendingFirstBlocks := none })
  let w ← get
  match deviceKeyLength w.device.batchSize passwords salt shape with
  | none => return false
  | some keyLength =>
    let flatKeys := passwords.flatMap keyBytes
    reserve kernels .keys flatKeys.length
    reserve kernels .salt salt.length
    copyFromHost kernels .keys flatKeys
    copyFromHost kernels .salt salt
    modify (World.over · fun self => { self with
      pendingFirstBlocks := some ⟨UInt32.ofNat keyLength, UInt32.ofNat salt.length, shape⟩ })
    return true

/-! ## One batch -/

def inputCopy (self : KernelRunner) : Operation :=
  .copyInput ⟨self.shape.jobBytes, 0, inputBytes, inputBytes, self.batchSize⟩

def copyInputBlocks : Call KernelRunner Unit := enqueue kernels "hipMemcpy2DAsync" inputCopy

/-- The last block of every lane is read back. -/
def outputCopy (self : KernelRunner) : Operation :=
  let copySize := self.shape.lanes.toNat * ARGON2_BLOCK_SIZE
  .copyOutput ⟨copySize, self.shape.jobBytes - copySize, self.shape.jobBytes, copySize,
    self.batchSize⟩

def copyOutputBlocks : Call KernelRunner Unit := enqueue kernels "hipMemcpy2DAsync" outputCopy

def launchOneshot : Call KernelRunner Unit :=
  enqueue kernels "argon2_kernel_oneshot" fun self =>
    .oneshot self.shape.segmentBlocks self.batchSize

def launchFirstBlocks (config : FirstBlockConfig) : Call KernelRunner Unit := do
  let w ← get
  match w.device.deviceKeys, w.device.deviceSalt with
  | none, _ => throw (.invalid "first blocks prepared without keys")
  | some _, none => throw (.invalid "first blocks prepared without a salt")
  | some keys, some salt =>
    enqueue kernels "argon2_first_blocks_kernel" fun self =>
      .firstBlocks keys.address salt.address config self.shape.segmentBlocks self.batchSize

def record : Call KernelRunner Unit := driverCall kernels "hipEventRecord"

/-- The first blocks of a batch are queued: launched where they are prepared on the device,
else copied. -/
def queueFirstBlocks : Option FirstBlockConfig → Call KernelRunner Unit
  | some config => do
    record kernels
    record kernels
    launchFirstBlocks kernels config
    record kernels
  | none => do
    copyInputBlocks kernels
    record kernels
    record kernels
    record kernels

/-- Queues one batch: first blocks, the Argon2 kernel and the readback. -/
def KernelRunner.run : Call KernelRunner Unit := do
  record kernels
  record kernels
  let w ← get
  modify (World.over · fun self => { self with
    pendingFirstBlocks := none
    lastUsedDeviceFirstBlocks := w.device.pendingFirstBlocks.isSome })
  queueFirstBlocks kernels w.device.pendingFirstBlocks
  record kernels
  launchOneshot kernels
  record kernels
  copyOutputBlocks kernels
  record kernels

def elapsedMs : Call KernelRunner Unit := driverCall kernels "hipEventElapsedTime"

/-- Waits for the queued batch and reads its timings. -/
def KernelRunner.finish : Call KernelRunner Unit := do
  synchronize kernels
  elapsedMs kernels
  elapsedMs kernels
  let w ← get
  if w.device.lastUsedDeviceFirstBlocks then elapsedMs kernels else pure ()
  elapsedMs kernels
  elapsedMs kernels

/-- The staging slots of the first jobs. -/
def inputBlocksBatchMut (jobs : Nat) : Call KernelRunner (List UInt8) := do
  let w ← get
  if w.device.blocksIn.size < jobs * inputBytes then
    throw (.invalid s!"batch of {jobs} is outside the pool")
  else return bytesOf w.device.blocksIn.bytes (jobs * inputBytes)

/-- The final blocks of the first jobs. -/
def outputBlocks (jobs : Nat) : Call KernelRunner (List UInt8) := do
  let w ← get
  if w.device.blocksOut.size < jobs * ARGON2_BLOCK_SIZE then
    throw (.invalid s!"batch of {jobs} is outside the pool")
  else return bytesOf w.device.blocksOut.bytes (jobs * ARGON2_BLOCK_SIZE)

end

/-! ## The pool -/

section

variable {ρ : Type}

def createEvents : Nat → Call ρ Unit
  | 0 => pure ()
  | n + 1 => do
    let turn ← takeTurn
    turn.check "hipEventCreate"
    createEvents n

def KernelRunner.new (shape : Argon2Shape) (batchSize : Nat) : Call ρ KernelRunner :=
  if batchSize = 0 then throw (.invalid "batch size must be non-zero")
  else
    let memorySize := batchSize * shape.jobBytes
    if 2 ^ 64 ≤ memorySize then throw (.invalid "batch size overflows the device pool")
    else do
      let turn ← takeTurn
      turn.check "hipStreamCreate"
      createEvents 8
      let turn ← takeTurn
      turn.check "hipMalloc"
      return {
        stream := []
        memory := ⟨turn.address, memorySize, turn.bytes⟩
        deviceKeys := none
        deviceSalt := none
        shape
        allocatedSegmentBlocks := shape.segmentBlocks
        batchSize
        blocksIn := ⟨batchSize * INPUT_BLOCKS_PER_JOB * ARGON2_BLOCK_SIZE, fun _ => 0⟩
        blocksOut := ⟨batchSize * ARGON2_BLOCK_SIZE, fun _ => 0⟩
        pendingFirstBlocks := none
        lastUsedDeviceFirstBlocks := false }

/-- The pool serves the shape as it is. -/
def KernelRunner.canReuse (self : KernelRunner) (shape : Argon2Shape) (batchSize : Nat) : Bool :=
  self.shape.type_ == shape.type_ && self.shape.version == shape.version &&
    self.shape.passes == shape.passes && self.shape.lanes == shape.lanes &&
    self.batchSize == batchSize && shape.segmentBlocks ≤ self.allocatedSegmentBlocks

/-- Prepared first blocks are dropped: they were staged for the old parameters. -/
def KernelRunner.reconfigure (self : KernelRunner) (shape : Argon2Shape) (batchSize : Nat) :
    KernelRunner :=
  { self with
    shape
    batchSize
    pendingFirstBlocks := none
    lastUsedDeviceFirstBlocks := false }

end

end TreeMiner.Gpu
