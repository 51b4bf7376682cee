import TreeMiner.Gpu.Runner
import TreeMiner.Miner.Encoding

/-! `GpuBackend` and `GpuHashBackend`: the pool that is kept from batch to batch, and
`run_batch` on it. -/

namespace TreeMiner.Gpu

open Host
open Kernel (Bytes writeList)
open Kernel.Blake2b (bytesOf)

/-- `Argon2Host`. A slot is filled whole: what stood in it makes no difference. -/
structure HashHost extends Argon2Host where
  fillFirstBlocks : List UInt8 → List UInt8 → List UInt8 → Argon2Shape →
    Except (Failure String) (List UInt8)
  filled : ∀ out out' password salt shape, out.length = out'.length →
    fillFirstBlocks out password salt shape = fillFirstBlocks out' password salt shape
  size : ∀ {out password salt shape bytes},
    fillFirstBlocks out password salt shape = .ok bytes → bytes.length = out.length

/-- What `run_batch` reads of a request. -/
structure HashRequest extends BatchRequest where
  saltHex : String
  difficulty : UInt32
  gpuFirstBlocks : Bool

/-- `BatchOutcome` without its times. -/
structure BatchOutcome where
  attempts : Nat
  gpuFirstBlocks : Bool
  matches_ : List GpuMatch
  digests : List String
  hash : Option String
deriving DecidableEq, Repr

def BatchOutcome.of (request : HashRequest) (finalized : Finalized) : BatchOutcome where
  attempts := request.passwords.length
  gpuFirstBlocks := request.gpuFirstBlocks
  matches_ := finalized.matches_
  digests := finalized.digests
  hash := finalized.hash

/-- The checks of a request; its salt passes them. -/
def checkRequest (request : HashRequest) : Except CallError (List UInt8) :=
  if request.passwords.isEmpty then .error (.invalid "batch has no passwords")
  else if request.difficulty = 0 then .error (.invalid "difficulty must be non-zero")
  else
    match hexToBytes request.saltHex with
    | .error e => .error (.invalid s!"salt: {e.text}")
    | .ok salt => if salt.isEmpty then .error (.invalid "salt is empty") else .ok salt

def MIN_PARALLEL_FINALIZE_ATTEMPTS : Nat := 64

def finalizeWorkerCount (attempts hardwareThreads : Nat) : Nat :=
  if attempts < MIN_PARALLEL_FINALIZE_ATTEMPTS then 1
  else if hardwareThreads < 2 then 1
  else max (min attempts hardwareThreads) 1

def hostError : Failure String → CallError
  | .error message => .gpu (.error (.host message))
  | .panic => .gpu .panic

/-! ## The host's first blocks -/

section

variable (host : HashHost) (salt : List UInt8) (shape : Argon2Shape)

/-- The loop of `fill_first_blocks_batch`: slot after slot, each with its password. -/
def fillSlots : List String → List UInt8 → Except (Failure String) (List UInt8)
  | [], out => .ok out
  | password :: passwords, out =>
    match host.fillFirstBlocks (out.take (slotBytes shape)) (keyBytes password) salt shape with
    | .error failure => .error failure
    | .ok bytes => (fillSlots passwords (out.drop (slotBytes shape))).map (bytes ++ ·)

def fillFirstBlocksBatch (out : List UInt8) (passwords : List String) :
    Except (Failure String) (List UInt8) :=
  let slot := slotBytes shape
  let want := passwords.length * slot
  if out.length ≠ want then
    .error (.error s!"first-block buffer is {out.length} bytes, want {want}")
  -- `chunks_mut` panics on a size of zero
  else if slot = 0 then .error .panic
  else fillSlots host salt shape passwords out

end

section

variable (kernels : Kernels) (host : HashHost)

/-- The host fills the staging slots. Where it fails, they hold anything. -/
def fillInputBlocks (passwords : List String) (salt : List UInt8) (shape : Argon2Shape) :
    Call KernelRunner Unit := do
  let slots ← inputBlocksBatchMut passwords.length
  let turn ← takeTurn
  let write := fun bytes (self : KernelRunner) => self.setBlocksIn bytes
  modify (World.race kernels write turn.torn)
  match fillFirstBlocksBatch host salt shape slots passwords with
  | .error failure =>
    modify (World.over · (write turn.bytes))
    throw (hostError failure)
  | .ok bytes =>
    if turn.fails then do
      modify (World.over · (write turn.bytes))
      throw (.failed "fill_first_blocks_batch")
    else modify (World.over · fun self => write (writeList self.blocksIn.bytes 0 bytes) self)

/-- The first blocks of a batch, on the device or by the host. -/
def stageFirstBlocks (request : HashRequest) (salt : List UInt8) (shape : Argon2Shape) :
    Call KernelRunner Unit :=
  if request.gpuFirstBlocks then do
    let supported ← prepareInputBlocksOnDevice kernels request.passwords salt shape
    if supported then pure ()
    else throw (.invalid "the device first-blocks kernel does not support this batch shape")
  else fillInputBlocks kernels host request.passwords salt shape

/-! ## The backend -/

/-- `runner_mut`, and what is then done with the runner. -/
def runnerMut {α : Type} (call : Call KernelRunner α) : Call (Option KernelRunner) α :=
  ExceptT.mk fun w =>
    match w.device with
    | none => (.error (.invalid "GPU pool is not initialised"), w)
    | some runner =>
      let p := call.run.run { w with device := runner }
      (p.1, { p.2 with device := some p.2.device })

/-- Dropping a runner waits for its stream. -/
def World.release (w : World (Option KernelRunner)) : World (Option KernelRunner) :=
  match w.device with
  | none => w
  | some runner =>
    { World.drain kernels { w with device := runner } with device := none }

/-- Frees the pool now. -/
def releaseBuffers : Call (Option KernelRunner) Unit := modify (World.release kernels)

/-- Operations queued on a pool that is still there run on. -/
def activate : Call (Option KernelRunner) Unit := do
  let turn ← takeTurn
  modify fun w =>
    match w.device with
    | none => w
    | some runner =>
      let w := World.retire kernels turn.ran { w with device := runner }
      { w with device := some w.device }
  turn.check "hipSetDevice"

/-- Allocates or reuses the pool. The old pool is dropped before the new one is allocated. -/
def init (shape : Argon2Shape) (batchSize : Nat) : Call (Option KernelRunner) Unit := do
  let w ← get
  if w.device.any (·.canReuse shape batchSize) then
    modify (World.over · (Option.map (·.reconfigure shape batchSize)))
  else do
    releaseBuffers kernels
    let runner ← KernelRunner.new shape batchSize
    modify fun w => { w with device := some runner }

/-- Hashes one batch and collects the matches. -/
def runBatch (request : HashRequest) (hardwareThreads : Nat) :
    Call (Option KernelRunner) BatchOutcome := do
  let salt ← MonadExcept.ofExcept (checkRequest request)
  let attempts := request.passwords.length
  let shape := Argon2Shape.forDifficulty request.difficulty
  activate kernels
  init kernels shape attempts
  runnerMut (stageFirstBlocks kernels host request salt shape)
  runnerMut (KernelRunner.run kernels)
  runnerMut (KernelRunner.finish kernels)
  let blocks ← runnerMut (outputBlocks attempts)
  let workerCount := finalizeWorkerCount attempts hardwareThreads
  let finalized ← MonadExcept.ofExcept
    ((finalizeBatch request.toBatchRequest host.toArgon2Host blocks workerCount).mapError .gpu)
  return .of request finalized

/-! ## Histories -/

/-- What is done with one hasher: a batch, with the driver's turns in it, or a release. -/
inductive Event
  | runBatch (request : HashRequest) (hardwareThreads : Nat) (turns : List Turn)
  | releaseBuffers

/-- A hasher that has hashed nothing. -/
def World.fresh (turns : List Turn) : World (Option KernelRunner) := ⟨none, turns, []⟩

def World.step (w : World (Option KernelRunner)) : Event → World (Option KernelRunner)
  | .runBatch request hardwareThreads turns =>
    ((Gpu.runBatch kernels host request hardwareThreads).run.run { w with turns }).2
  | .releaseBuffers => w.release kernels

/-- Where a history leads a fresh hasher. -/
def World.after (history : List Event) : World (Option KernelRunner) :=
  history.foldl (World.step kernels host) (World.fresh [])

end

/-! ## A batch without a pool -/

section

variable (kernels : Kernels) (host : HashHost) (request : HashRequest)

/-- The first blocks of every job, slot after slot. -/
def firstBytes (salt : List UInt8) (shape : Argon2Shape) : Except CallError Bytes :=
  let passwords := request.passwords
  if request.gpuFirstBlocks then
    match deviceKeyLength passwords.length passwords salt shape with
    | none => .error
      (.invalid "the device first-blocks kernel does not support this batch shape")
    | some _ => .ok fun i => kernels.firstBlocks shape
      (keyBytes (passwords.getD (i / inputBytes) "")) salt (i % inputBytes)
  else
    match fillFirstBlocksBatch host salt shape
      (List.replicate (passwords.length * inputBytes) 0) passwords with
    | .error failure => .error (hostError failure)
    | .ok bytes => .ok fun i => bytes.getD i 0

/-- The last block of every job, one after the other. -/
def lastBytes (shape : Argon2Shape) (first : Bytes) : Bytes := fun i =>
  kernels.oneshot shape.segmentBlocks
    (bytesOf (fun k => first (i / ARGON2_BLOCK_SIZE * inputBytes + k)) inputBytes)
    (stride shape.segmentBlocks - ARGON2_BLOCK_SIZE + i % ARGON2_BLOCK_SIZE)

/-- The last blocks of a request whose first blocks are these. -/
def blocksOf (first : Bytes) : List UInt8 :=
  bytesOf (lastBytes kernels (.forDifficulty request.difficulty) first)
    (request.passwords.length * ARGON2_BLOCK_SIZE)

/-- What a batch comes to: every job by itself, and nothing of the batches before. -/
def hashBatch : Except CallError BatchOutcome := do
  let salt ← checkRequest request
  let first ← firstBytes kernels host request salt (.forDifficulty request.difficulty)
  let finalized ← (finalizeBatch request.toBatchRequest host.toArgon2Host
    (blocksOf kernels request first) 1).mapError .gpu
  return .of request finalized

/-- The pool of the batch has a size at all. -/
def HashRequest.Fits : Prop :=
  request.passwords.length * (Argon2Shape.forDifficulty request.difficulty).jobBytes < 2 ^ 64

end

variable {kernels : Kernels} {host : HashHost} {request : HashRequest} {salt : List UInt8}
  {first : Bytes}

theorem passwords_nonempty (h : checkRequest request = .ok salt) :
    request.passwords.length ≠ 0 := by
  intro hnone
  unfold checkRequest at h
  rw [List.eq_nil_of_length_eq_zero hnone] at h
  cases h

theorem mapError_ok {ε ε' α : Type} {f : ε → ε'} {result : Except ε α} {a : α} :
    result.mapError f = .ok a ↔ result = .ok a := by
  cases result with
  | ok b => exact ⟨fun h => congrArg _ (Except.ok.inj h), fun h => congrArg _ (Except.ok.inj h)⟩
  | error e => exact iff_of_false nofun nofun

/-- What a batch comes to is decided by its blocks. -/
theorem hashBatch_ok_iff (hsalt : checkRequest request = .ok salt)
    (hfirst : firstBytes kernels host request salt (.forDifficulty request.difficulty) = .ok first)
    (outcome : BatchOutcome) : hashBatch kernels host request = .ok outcome ↔
      ∃ finalized, finalizeBatch request.toBatchRequest host.toArgon2Host
        (blocksOf kernels request first) 1 = .ok finalized ∧ outcome = .of request finalized := by
  have hhash : hashBatch kernels host request = ((finalizeBatch request.toBatchRequest
      host.toArgon2Host (blocksOf kernels request first) 1).mapError .gpu).bind
        fun finalized => .ok (.of request finalized) := by
    unfold hashBatch
    rw [hsalt]
    change (firstBytes kernels host request salt (.forDifficulty request.difficulty)).bind _ = _
    rw [hfirst]
    rfl
  rw [hhash]
  cases finalizeBatch request.toBatchRequest host.toArgon2Host
    (blocksOf kernels request first) 1 with
  | error failure => exact ⟨nofun, fun ⟨_, h, _⟩ => nomatch h⟩
  | ok finalized =>
    constructor
    · intro h
      cases h
      exact ⟨finalized, rfl, rfl⟩
    · rintro ⟨_, h, rfl⟩
      cases h
      rfl

/-- A batch that comes to something passes the checks and has its first blocks. -/
theorem firstBytes_of_hashBatch {outcome : BatchOutcome}
    (h : hashBatch kernels host request = .ok outcome) : ∃ salt first,
      checkRequest request = .ok salt ∧
      firstBytes kernels host request salt (.forDifficulty request.difficulty) = .ok first := by
  unfold hashBatch at h
  cases hsalt : checkRequest request with
  | error e =>
    rw [hsalt] at h
    cases h
  | ok salt =>
    rw [hsalt] at h
    cases hfirst : firstBytes kernels host request salt (.forDifficulty request.difficulty) with
    | error e =>
      change (firstBytes kernels host request salt (.forDifficulty request.difficulty)).bind _ =
        _ at h
      rw [hfirst] at h
      cases h
    | ok first => exact ⟨salt, first, rfl, hfirst⟩

end TreeMiner.Gpu
