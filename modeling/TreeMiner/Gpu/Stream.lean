import TreeMiner.Gpu.Backend
import TreeMiner.Lib.Triple

/-! What the stream of a runner comes to. Operations run in order, so a runner has one state
its queue leads to, and no call of the driver changes it; every queued operation stays in the
buffers it was queued for. -/

namespace TreeMiner.Gpu

open Host Lib
open Kernel (Bytes writeList)
open Kernel.Blake2b (bytesOf)

variable {kernels : Kernels} {self : KernelRunner} {operation : Operation}
  {stream : List Operation}

/-! ## The shapes of the miner -/

section

variable (difficulty : UInt32)

theorem jobBytes_forDifficulty : (Argon2Shape.forDifficulty difficulty).jobBytes =
    (Argon2Shape.forDifficulty difficulty).segmentBlocks.toNat * 4096 := by
  rw [Argon2Shape.jobBytes_eq rfl, Argon2Shape.segmentBlocks_toNat rfl, Nat.mul_assoc]

theorem segmentBlocks_lt :
    (Argon2Shape.forDifficulty difficulty).segmentBlocks.toNat < 2 ^ 30 := by
  have hcost := (Argon2Shape.forDifficulty difficulty).memoryCost.toNat_lt
  rw [Argon2Shape.segmentBlocks_toNat rfl]
  omega

theorem two_le_segmentBlocks :
    2 ≤ (Argon2Shape.forDifficulty difficulty).segmentBlocks.toNat := by
  rw [Argon2Shape.segmentBlocks_toNat rfl]
  omega

/-- The kernels put the jobs where the copies do. -/
theorem stride_eq_jobBytes : stride (Argon2Shape.forDifficulty difficulty).segmentBlocks =
    (Argon2Shape.forDifficulty difficulty).jobBytes := by
  have hlt := segmentBlocks_lt difficulty
  have hfour : (4 : UInt32).toNat = 4 := rfl
  unfold stride ARGON2_BLOCK_SIZE
  rw [jobBytes_forDifficulty, UInt32.toNat_mul, hfour, Nat.mod_eq_of_lt (by omega)]
  omega

/-- A job has eight blocks at least. -/
theorem le_jobBytes : 8192 ≤ (Argon2Shape.forDifficulty difficulty).jobBytes := by
  have := two_le_segmentBlocks difficulty
  rw [jobBytes_forDifficulty]
  omega

end

/-! ## Where a stream leads -/

/-- A runner whose device has run the whole stream. -/
def KernelRunner.drained (kernels : Kernels) (self : KernelRunner) : KernelRunner :=
  { self.stream.foldl (Operation.perform kernels) self with stream := [] }

@[simp] theorem perform_stream : (operation.perform kernels self).stream = self.stream := by
  cases operation <;> rfl

theorem perform_withStream : operation.perform kernels { self with stream } =
    { operation.perform kernels self with stream } := by
  cases operation <;> rfl

theorem foldl_perform_withStream (operations : List Operation) :
    operations.foldl (Operation.perform kernels) { self with stream } =
      { operations.foldl (Operation.perform kernels) self with stream } := by
  induction operations generalizing self with
  | nil => rfl
  | cons operation operations ih => rw [List.foldl_cons, List.foldl_cons, perform_withStream, ih]

/-- Only the pool and the read-back buffer are written by operations. -/
theorem foldl_perform_eq (operations : List Operation) : ∃ memory blocksOut,
    operations.foldl (Operation.perform kernels) self =
      (self.setMemory memory).setBlocksOut blocksOut := by
  induction operations generalizing self with
  | nil => exact ⟨self.memory.bytes, self.blocksOut.bytes, rfl⟩
  | cons operation operations ih =>
    obtain ⟨memory, blocksOut, hrest⟩ := @ih (operation.perform kernels self)
    refine ⟨memory, blocksOut, hrest.trans ?_⟩
    cases operation <;> rfl

theorem drained_eq (kernels : Kernels) (self : KernelRunner) : ∃ memory blocksOut,
    self.drained kernels =
      ({ self with stream := [] }.setMemory memory).setBlocksOut blocksOut := by
  obtain ⟨memory, blocksOut, h⟩ := @foldl_perform_eq kernels self self.stream
  refine ⟨memory, blocksOut, ?_⟩
  unfold KernelRunner.drained
  rw [h]
  rfl

/-- Nothing is queued. -/
theorem drained_idle (h : self.stream = []) : self.drained kernels = self := by
  unfold KernelRunner.drained
  rw [h]
  exact congrArg (fun stream => { self with stream }) h.symm

/-- Where the stream leads does not depend on how far the device has come. -/
theorem drained_perform (h : self.stream = operation :: stream) :
    (operation.perform kernels { self with stream }).drained kernels = self.drained kernels := by
  unfold KernelRunner.drained
  rw [perform_stream, h, List.foldl_cons, perform_withStream, foldl_perform_withStream]

/-- The operation queued last is run last. -/
theorem drained_push : { self with stream := self.stream ++ [operation] }.drained kernels =
    operation.perform kernels (self.drained kernels) := by
  unfold KernelRunner.drained
  rw [foldl_perform_withStream, List.foldl_append, List.foldl_cons, List.foldl_nil]
  exact perform_withStream.symm

/-! ## Pools that hold what is queued for them -/

/-- The pool has room for its jobs, and every queued operation stays in its buffers. -/
structure KernelRunner.Sound (runner : KernelRunner) : Prop where
  shape : runner.shape = .forDifficulty runner.shape.memoryCost
  segment : runner.shape.segmentBlocks.toNat ≤ runner.allocatedSegmentBlocks.toNat
  memory : runner.memory.size = runner.batchSize * (runner.allocatedSegmentBlocks.toNat * 4096)
  fits : runner.memory.size < 2 ^ 64
  blocksIn : runner.blocksIn.size = runner.batchSize * inputBytes
  blocksOut : runner.blocksOut.size = runner.batchSize * ARGON2_BLOCK_SIZE
  stream : ∀ operation ∈ runner.stream, ∀ a ∈ operation.accesses runner.extents, a.InBounds

theorem KernelRunner.Sound.perform (h : self.Sound) (hstream : self.stream = operation :: stream) :
    (operation.perform kernels { self with stream }).Sound := by
  have hrest : ∀ next ∈ stream, ∀ a ∈ next.accesses self.extents, a.InBounds := by
    intro next hnext
    refine h.stream next ?_
    rw [hstream]
    exact List.mem_cons_of_mem _ hnext
  cases operation <;>
    exact ⟨h.shape, h.segment, h.memory, h.fits, h.blocksIn, h.blocksOut, hrest⟩

/-- What a launch was prepared with is no part of it. -/
theorem KernelRunner.Sound.prepared (h : self.Sound) (pendingFirstBlocks : Option FirstBlockConfig)
    (lastUsedDeviceFirstBlocks : Bool) :
    { self with pendingFirstBlocks, lastUsedDeviceFirstBlocks }.Sound :=
  ⟨h.shape, h.segment, h.memory, h.fits, h.blocksIn, h.blocksOut, h.stream⟩

/-- The jobs of the shape lie in the pool. -/
theorem KernelRunner.Sound.pool (h : self.Sound) :
    self.batchSize * self.shape.jobBytes ≤ self.memory.size := by
  rw [h.memory, h.shape, jobBytes_forDifficulty, ← h.shape]
  exact Nat.mul_le_mul_left _ (Nat.mul_le_mul_right _ h.segment)

/-- Rows at a pitch stay in a buffer of so many rows. -/
theorem rows_inBounds {copy : Copy2D} {start pitch size : Nat} (hwidth : start + copy.width ≤ pitch)
    (hsize : copy.height * pitch ≤ size) : ∀ a ∈ copy.rows start pitch size, a.InBounds := by
  intro a ha
  obtain ⟨row, hrow, rfl⟩ := List.mem_map.1 ha
  have hend := row_end_le (List.mem_range.1 hrow) hwidth
  unfold Access.InBounds
  dsimp only
  omega

theorem inputCopy_inBounds (h : self.Sound) :
    ∀ a ∈ (inputCopy self).accesses self.extents, a.InBounds := by
  have hjob := le_jobBytes self.shape.memoryCost
  rw [← h.shape] at hjob
  have hinput : inputBytes = 2048 := rfl
  intro a ha
  rcases List.mem_append.1 ha with ha | ha
  · exact rows_inBounds (by dsimp only; omega) h.pool a ha
  · exact rows_inBounds (by dsimp only; omega) h.blocksIn.ge a ha

theorem outputCopy_inBounds (h : self.Sound) :
    ∀ a ∈ (outputCopy self).accesses self.extents, a.InBounds := by
  have hjob := le_jobBytes self.shape.memoryCost
  rw [← h.shape] at hjob
  have hlanes : self.shape.lanes.toNat = 1 := by
    rw [h.shape]
    rfl
  have hblock : ARGON2_BLOCK_SIZE = 1024 := rfl
  have hout : self.batchSize * (1 * ARGON2_BLOCK_SIZE) ≤ self.blocksOut.size := by
    rw [Nat.one_mul]
    exact h.blocksOut.ge
  unfold outputCopy
  dsimp only
  rw [hlanes]
  intro a ha
  rcases List.mem_append.1 ha with ha | ha
  · exact rows_inBounds (by dsimp only; omega) hout a ha
  · exact rows_inBounds (by dsimp only; omega) h.pool a ha

theorem oneshot_inBounds (h : self.Sound) :
    ∀ a ∈ (Operation.oneshot self.shape.segmentBlocks self.batchSize).accesses self.extents,
      a.InBounds := by
  have hpool := h.pool
  have hstride := stride_eq_jobBytes self.shape.memoryCost
  rw [← h.shape] at hstride
  intro a ha
  obtain ⟨job, hjob, rfl⟩ := List.mem_map.1 ha
  unfold Access.InBounds
  dsimp only
  rw [hstride]
  exact (row_end_le (List.mem_range.1 hjob) le_rfl).trans hpool

/-- A launch of the first blocks stays in its buffers, where they hold the keys and the salt. -/
theorem firstBlocks_inBounds (h : self.Sound) {keys salt : DeviceBuffer}
    (hkeys : self.deviceKeys = some keys) (hsalt : self.deviceSalt = some salt)
    {config : FirstBlockConfig} (hkeySize : self.batchSize * config.keyLength.toNat ≤ keys.size)
    (hsaltSize : config.saltLength.toNat ≤ salt.size) :
    ∀ a ∈ (Operation.firstBlocks keys.address salt.address config self.shape.segmentBlocks
      self.batchSize).accesses self.extents, a.InBounds := by
  have hpool := h.pool
  have hstride := stride_eq_jobBytes self.shape.memoryCost
  have hjobBytes := le_jobBytes self.shape.memoryCost
  rw [← h.shape] at hstride hjobBytes
  have hinput : inputBytes = 2048 := rfl
  have hkeysAt : sizeAt self.extents.keys keys.address = keys.size := by
    unfold KernelRunner.extents
    dsimp only
    rw [hkeys]
    exact if_pos rfl
  have hsaltAt : sizeAt self.extents.salt salt.address = salt.size := by
    unfold KernelRunner.extents
    dsimp only
    rw [hsalt]
    exact if_pos rfl
  intro a ha
  obtain ⟨job, hjob, ha⟩ := List.mem_flatMap.1 ha
  have hjob := List.mem_range.1 hjob
  rw [hkeysAt, hsaltAt, hstride] at ha
  simp only [List.mem_cons, List.not_mem_nil, or_false] at ha
  unfold Access.InBounds
  rcases ha with rfl | rfl | rfl
  · exact (row_end_le hjob le_rfl).trans hkeySize
  · dsimp only
    omega
  · exact (row_end_le hjob (show inputBytes ≤ self.shape.jobBytes by omega)).trans hpool

/-! ## Calls of the driver -/

/-- A sound pool, with every range so far in bounds. On a smooth day no step will fail; of an
idle stream nothing is queued; and `state` says where the stream leads. -/
structure Held (kernels : Kernels) (smooth idle : Prop) (state : KernelRunner → Prop)
    (w : World KernelRunner) : Prop where
  sound : w.device.Sound
  log : ∀ a ∈ w.log, a.InBounds
  turns : smooth → w.turns = []
  stream : idle → w.device.stream = []
  state : state (w.device.drained kernels)

/-- What a failed call leaves behind. -/
structure Failed (smooth : Prop) (w : World KernelRunner) : Prop where
  sound : w.device.Sound
  log : ∀ a ∈ w.log, a.InBounds
  rough : ¬ smooth

variable {smooth idle : Prop} {state state' : KernelRunner → Prop} {w : World KernelRunner}

theorem Held.imp (h : Held kernels smooth idle state w)
    (hstate : ∀ runner, state runner → state' runner) : Held kernels smooth idle state' w :=
  ⟨h.sound, h.log, h.turns, h.stream, hstate _ h.state⟩

theorem Held.busy (h : Held kernels smooth idle state w) : Held kernels smooth False state w :=
  ⟨h.sound, h.log, h.turns, False.elim, h.state⟩

theorem Held.failed (h : Held kernels smooth idle state w) (hrough : ¬ smooth) : Failed smooth w :=
  ⟨h.sound, h.log, hrough⟩

theorem Held.retire (h : Held kernels smooth idle state w) (n : Nat) :
    Held kernels smooth idle state (w.retire kernels n) := by
  induction n generalizing w with
  | zero => exact h
  | succ n ih =>
    unfold World.retire
    cases hstream : w.device.stream with
    | nil => exact h
    | cons operation stream =>
      have hlog : ∀ a ∈ w.log ++ operation.accesses w.device.extents, a.InBounds := by
        intro a ha
        rcases List.mem_append.1 ha with ha | ha
        · exact h.log a ha
        · exact h.sound.stream operation (by rw [hstream]; exact List.mem_cons_self) a ha
      refine ih ⟨h.sound.perform hstream, hlog, h.turns, fun hidle => ?_, ?_⟩
      · have hnone := h.stream hidle
        rw [hstream] at hnone
        cases hnone
      · dsimp only
        rw [drained_perform hstream]
        exact h.state

theorem retire_stream (n : Nat) (w : World KernelRunner) :
    (w.retire kernels n).device.stream = w.device.stream.drop n := by
  induction n generalizing w with
  | zero => rfl
  | succ n ih =>
    unfold World.retire
    cases hstream : w.device.stream with
    | nil => rw [hstream, List.drop_nil]
    | cons operation stream =>
      dsimp only
      rw [ih, List.drop_succ_cons, perform_stream]

theorem Held.drain (h : Held kernels smooth idle state w) :
    Held kernels smooth True state (w.drain kernels) := by
  have hend := h.retire w.device.stream.length
  refine ⟨hend.sound, hend.log, hend.turns, fun _ => ?_, hend.state⟩
  rw [World.drain, retire_stream, List.drop_length]

/-- The host changes the runner under its stream. -/
theorem Held.over (h : Held kernels smooth idle state w) {f : KernelRunner → KernelRunner}
    (hsound : (f w.device).Sound) (hstream : (f w.device).stream = w.device.stream)
    (hstate : state' ((f w.device).drained kernels)) :
    Held kernels smooth idle state' (w.over f) :=
  ⟨hsound, h.log, h.turns, fun hidle => hstream.trans (h.stream hidle), hstate⟩

/-- What holds of a runner whatever is written while its buffer is half filled. -/
theorem Held.race (h : Held kernels smooth idle state w)
    {write : Bytes → KernelRunner → KernelRunner} (hwrite : ∀ bytes runner, runner.Sound →
      state (runner.drained kernels) → (write bytes runner).Sound ∧
        (write bytes runner).stream = runner.stream ∧
        state ((write bytes runner).drained kernels)) (torn : List Bytes) :
    Held kernels smooth idle state (w.race kernels write torn) := by
  induction torn generalizing w with
  | nil => exact h
  | cons bytes torn ih =>
    obtain ⟨hsound, hstream, hstate⟩ := hwrite bytes w.device h.sound h.state
    exact ih ((h.over hsound hstream hstate).retire 1)

theorem takeTurn_spec : Triple (Held kernels smooth idle state) takeTurn
    (fun turn w => Held kernels smooth idle state w ∧ (smooth → turn = {}))
    (Failed smooth) := by
  intro w h
  refine ⟨⟨h.sound, h.log, fun hsmooth => ?_, h.stream, h.state⟩, fun hsmooth => ?_⟩
  · change w.turns.tail = []
    rw [h.turns hsmooth]
    rfl
  · rw [h.turns hsmooth]
    rfl

/-- What holds of a step that has not failed holds once it is checked. -/
theorem check_passed (turn : Turn) (call : String) (hturn : smooth → turn = {})
    (hstate : turn.fails = false → ∀ runner, state runner → state' runner) :
    Triple (Held kernels smooth idle state) (turn.check call)
      (fun _ => Held kernels smooth idle state') (Failed smooth) := by
  refine Triple.ite (fun hfails => Triple.throw fun w h => h.failed fun hsmooth => ?_)
    fun hpassed => Triple.pure fun w h => h.imp (hstate (Bool.not_eq_true _ ▸ hpassed))
  rw [hturn hsmooth] at hfails
  cases hfails

theorem check_spec (turn : Turn) (call : String) (hturn : smooth → turn = {}) :
    Triple (Held kernels smooth idle state) (turn.check call)
      (fun _ => Held kernels smooth idle state) (Failed smooth) :=
  check_passed turn call hturn fun _ _ h => h

/-- A turn is taken, and the device goes on for a while. -/
theorem turn_spec {α : Type} {next : Turn → Call KernelRunner α}
    {after : α → World KernelRunner → Prop}
    (hnext : ∀ turn, (smooth → turn = {}) →
      Triple (Held kernels smooth idle state) (next turn) after (Failed smooth)) :
    Triple (Held kernels smooth idle state) (do
      let turn ← takeTurn
      modify (World.retire kernels turn.ran)
      next turn) after (Failed smooth) := by
  refine takeTurn_spec.bind fun turn => Triple.of_start fun w hw => ?_
  refine Triple.bind (Triple.update (Q := fun _ => Held kernels smooth idle state) ?_)
    fun _ => hnext turn hw.2
  rintro s rfl
  exact hw.1.retire _

theorem driverCall_spec (call : String) : Triple (Held kernels smooth idle state)
    (driverCall kernels call) (fun _ => Held kernels smooth idle state) (Failed smooth) :=
  turn_spec fun turn hturn => check_spec turn call hturn

/-- An operation is queued behind the others, if it stays in its buffers. -/
theorem enqueue_spec (call : String) {operation : KernelRunner → Operation}
    (hfits : ∀ runner : KernelRunner, runner.Sound → state (runner.drained kernels) →
      ∀ a ∈ (operation runner).accesses runner.extents, a.InBounds)
    (hstate : ∀ runner : KernelRunner, runner.Sound → state (runner.drained kernels) →
      state' ((operation runner).perform kernels (runner.drained kernels))) :
    Triple (Held kernels smooth False state) (enqueue kernels call operation)
      (fun _ => Held kernels smooth False state') (Failed smooth) := by
  refine turn_spec fun turn hturn => Triple.ite (fun hlost => ?_) fun _ => ?_
  · refine Triple.throw fun w h => h.failed fun hsmooth => ?_
    rw [hturn hsmooth] at hlost
    cases hlost
  · refine Triple.bind (Triple.update (Q := fun _ => Held kernels smooth False state') ?_)
      fun _ => check_spec turn call hturn
    intro w h
    refine ⟨⟨h.sound.shape, h.sound.segment, h.sound.memory, h.sound.fits, h.sound.blocksIn,
      h.sound.blocksOut, fun queued hqueued => ?_⟩, h.log, h.turns, False.elim, ?_⟩
    · rcases List.mem_append.1 hqueued with hqueued | hqueued
      · exact h.sound.stream queued hqueued
      · rw [List.mem_singleton.1 hqueued]
        exact hfits w.device h.sound h.state
    · change state' ({ w.device with stream := w.device.stream ++ [operation w.device] }.drained
        kernels)
      rw [drained_push]
      exact hstate w.device h.sound h.state

theorem synchronize_spec : Triple (Held kernels smooth idle state) (synchronize kernels)
    (fun _ => Held kernels smooth True state) (Failed smooth) := by
  refine takeTurn_spec.bind fun turn => Triple.ite (fun hfails => ?_) fun _ => ?_
  · refine Triple.bind (Triple.update (Q := fun _ => Failed smooth) ?_)
      fun _ => Triple.throw fun w h => h
    rintro w ⟨h, hturn⟩
    refine (h.retire _).failed fun hsmooth => ?_
    rw [hturn hsmooth] at hfails
    cases hfails
  · exact Triple.update fun w h => h.1.drain

end TreeMiner.Gpu
