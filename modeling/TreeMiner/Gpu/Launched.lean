import TreeMiner.Gpu.Stream

/-! One batch on a runner. Whatever was queued before, the first blocks, the kernel and the
read-back queued last decide what the read-back buffer holds in the end. -/

namespace TreeMiner.Gpu

open Host Lib
open Kernel (Bytes)
open Kernel.Blake2b (bytesOf)

variable {kernels : Kernels} {self : KernelRunner} {smooth idle : Prop}
  {state : KernelRunner → Prop}

/-- A property that looks at nothing the device writes. -/
def Framed (state : KernelRunner → Prop) : Prop := ∀ (self : KernelRunner) stream memory blocksOut,
  state (({ self with stream }.setMemory memory).setBlocksOut blocksOut) ↔ state self

theorem Framed.drained (h : Framed state) : state (self.drained kernels) ↔ state self := by
  obtain ⟨memory, blocksOut, hdrained⟩ := drained_eq kernels self
  rw [hdrained]
  exact h self [] memory blocksOut

theorem bytesOf_congr {f g : Bytes} {n : Nat} (h : ∀ i < n, f i = g i) :
    bytesOf f n = bytesOf g n :=
  List.map_congr_left fun i hi => h i (List.mem_range.1 hi)

section

variable (kernels) (shape : Argon2Shape) (batchSize : Nat) (first : Bytes)

/-- The runner is set up for a batch. -/
structure Asked (runner : KernelRunner) : Prop where
  shapeEq : runner.shape = shape
  batchEq : runner.batchSize = batchSize

/-- The host has put the first blocks into the staging slots. -/
structure HostFilled (runner : KernelRunner) : Prop extends Asked shape batchSize runner where
  slots : ∀ i < batchSize * inputBytes, runner.blocksIn.bytes i = first i

/-- Keys and salt are staged, and the kernel derives the first blocks from them. -/
structure DeviceStaged (config : FirstBlockConfig) (keys salt : DeviceBuffer)
    (runner : KernelRunner) : Prop extends Asked shape batchSize runner where
  deviceKeys : runner.deviceKeys = some keys
  deviceSalt : runner.deviceSalt = some salt
  keySize : batchSize * config.keyLength.toNat ≤ keys.size
  saltSize : config.saltLength.toNat ≤ salt.size
  derives : ∀ job < batchSize, ∀ i < inputBytes, kernels.firstBlocks config.shape
    (bytesOf (fun k => keys.bytes (job * config.keyLength.toNat + k)) config.keyLength.toNat)
    (bytesOf salt.bytes config.saltLength.toNat) i = first (job * inputBytes + i)

/-- The first blocks are staged for what is pending. -/
def StagedFor (runner : KernelRunner) : Option FirstBlockConfig → Prop
  | none => HostFilled shape batchSize first runner
  | some config => ∃ keys salt,
    DeviceStaged kernels shape batchSize first config keys salt runner

/-- Every job in the pool starts with its first blocks. -/
structure Seeded (runner : KernelRunner) : Prop extends Asked shape batchSize runner where
  blocks : ∀ job < batchSize, ∀ i < inputBytes,
    runner.memory.bytes (job * shape.jobBytes + i) = first (job * inputBytes + i)

/-- Every job in the pool holds what the kernel makes of its first blocks. -/
structure Chained (runner : KernelRunner) : Prop extends Asked shape batchSize runner where
  blocks : ∀ job < batchSize, ∀ i, inputBytes ≤ i → i < shape.jobBytes →
    runner.memory.bytes (job * shape.jobBytes + i) = kernels.oneshot shape.segmentBlocks
      (bytesOf (fun k => first (job * inputBytes + k)) inputBytes) i

/-- The last blocks of the batch are read back. -/
structure Hashed (runner : KernelRunner) : Prop extends Asked shape batchSize runner where
  blocks : ∀ i < batchSize * ARGON2_BLOCK_SIZE,
    runner.blocksOut.bytes i = lastBytes kernels shape first i

end

variable {shape : Argon2Shape} {batchSize : Nat} {first : Bytes}

theorem framed_asked : Framed (Asked shape batchSize) :=
  fun _ _ _ _ => ⟨fun h => ⟨h.shapeEq, h.batchEq⟩, fun h => ⟨h.shapeEq, h.batchEq⟩⟩

theorem Asked.of_drained (h : Asked shape batchSize (self.drained kernels)) :
    Asked shape batchSize self := framed_asked.drained.1 h

theorem KernelRunner.Sound.stride (h : self.Sound) :
    Gpu.stride self.shape.segmentBlocks = self.shape.jobBytes := by
  rw [h.shape]
  exact stride_eq_jobBytes _

theorem KernelRunner.Sound.le_jobBytes (h : self.Sound) : 8192 ≤ self.shape.jobBytes := by
  rw [h.shape]
  exact Gpu.le_jobBytes _

/-! ## The operations of a batch -/

theorem copyInput_seeded (hsound : self.Sound)
    (h : HostFilled shape batchSize first (self.drained kernels)) :
    Seeded shape batchSize first ((inputCopy self).perform kernels (self.drained kernels)) := by
  have hasked := h.toAsked.of_drained
  have hjob := hsound.le_jobBytes
  have hinput : inputBytes = 2048 := rfl
  refine ⟨⟨h.shapeEq, h.batchEq⟩, fun job hlt i hi => ?_⟩
  rw [← hasked.batchEq] at hlt
  have hslot : job * inputBytes + i < batchSize * inputBytes := by
    have hend := row_end_le hlt (le_refl inputBytes)
    rw [hasked.batchEq] at hend
    omega
  rw [← hasked.shapeEq]
  change setRows self.shape.jobBytes self.batchSize 0 inputBytes
    (fun row column => (self.drained kernels).blocksIn.bytes (0 + row * inputBytes + column))
    (self.drained kernels).memory.bytes (job * self.shape.jobBytes + i) = _
  rw [setRows_inside (by omega) hlt (Nat.zero_le i) hi, Nat.zero_add]
  exact h.slots _ hslot

theorem firstBlocks_seeded {config : FirstBlockConfig} {keys salt : DeviceBuffer}
    (hsound : self.Sound)
    (h : DeviceStaged kernels shape batchSize first config keys salt (self.drained kernels)) :
    Seeded shape batchSize first ((Operation.firstBlocks keys.address salt.address config
      self.shape.segmentBlocks self.batchSize).perform kernels (self.drained kernels)) := by
  have hasked := h.toAsked.of_drained
  have hjob := hsound.le_jobBytes
  have hinput : inputBytes = 2048 := rfl
  refine ⟨⟨h.shapeEq, h.batchEq⟩, fun job hlt i hi => ?_⟩
  have hrow : job < self.batchSize := by rwa [hasked.batchEq]
  have hkeys : stagedBytes (self.drained kernels).deviceKeys = keys.bytes := by
    rw [h.deviceKeys]
    rfl
  have hsalt : stagedBytes (self.drained kernels).deviceSalt = salt.bytes := by
    rw [h.deviceSalt]
    rfl
  rw [← h.derives job hlt i hi, ← hasked.shapeEq, ← hkeys, ← hsalt]
  unfold Operation.perform KernelRunner.setMemory
  dsimp only
  rw [hsound.stride, setRows_inside (by omega) hrow (Nat.zero_le i) hi]

theorem oneshot_chained (hsound : self.Sound)
    (h : Seeded shape batchSize first (self.drained kernels)) :
    Chained kernels shape batchSize first
      ((Operation.oneshot self.shape.segmentBlocks self.batchSize).perform kernels
        (self.drained kernels)) := by
  have hasked := h.toAsked.of_drained
  refine ⟨⟨h.shapeEq, h.batchEq⟩, fun job hlt i hlow hi => ?_⟩
  have hrow : job < self.batchSize := by rwa [hasked.batchEq]
  rw [← hasked.shapeEq] at hi ⊢
  have hfirst : bytesOf (fun k => first (job * inputBytes + k)) inputBytes =
      bytesOf (fun k => (self.drained kernels).memory.bytes (job * self.shape.jobBytes + k))
        inputBytes := by
    refine bytesOf_congr fun k hk => ?_
    rw [hasked.shapeEq]
    exact (h.blocks job hlt k hk).symm
  rw [hfirst]
  unfold Operation.perform KernelRunner.setMemory
  dsimp only
  rw [hsound.stride, setRows_inside le_rfl hrow hlow hi]

theorem copyOutput_hashed (hsound : self.Sound)
    (h : Chained kernels shape batchSize first (self.drained kernels)) :
    Hashed kernels shape batchSize first
      ((outputCopy self).perform kernels (self.drained kernels)) := by
  have hasked := h.toAsked.of_drained
  have hjobBytes := hsound.le_jobBytes
  have hstride := hsound.stride
  have hlanes : self.shape.lanes.toNat * ARGON2_BLOCK_SIZE = ARGON2_BLOCK_SIZE := by
    rw [hsound.shape]
    exact Nat.one_mul _
  rw [hasked.shapeEq] at hjobBytes hstride
  have hblock : ARGON2_BLOCK_SIZE = 1024 := rfl
  have hinput : inputBytes = 2048 := rfl
  refine ⟨⟨h.shapeEq, h.batchEq⟩, fun i hi => ?_⟩
  have hcolumn : i % ARGON2_BLOCK_SIZE < ARGON2_BLOCK_SIZE := Nat.mod_lt _ (by decide)
  have hjob : i / ARGON2_BLOCK_SIZE < batchSize := Nat.div_lt_of_lt_mul (by rwa [Nat.mul_comm])
  have hrow : i / ARGON2_BLOCK_SIZE < self.batchSize := by rwa [hasked.batchEq]
  have hread := h.blocks _ hjob (shape.jobBytes - ARGON2_BLOCK_SIZE + i % ARGON2_BLOCK_SIZE)
    (by omega) (by omega)
  unfold lastBytes
  rw [hstride, ← hread]
  unfold Operation.perform outputCopy KernelRunner.setBlocksOut Copy2D.perform setRows
  dsimp only
  rw [hlanes, hasked.shapeEq, if_pos ⟨hrow, Nat.zero_le _, hcolumn⟩]
  refine congrArg (self.drained kernels).memory.bytes ?_
  omega

/-! ## `run` and `finish` -/

theorem framed_stagedFor (pending : Option FirstBlockConfig) :
    Framed (StagedFor kernels shape batchSize first · pending) := by
  intro runner stream memory blocksOut
  cases pending with
  | none =>
    exact ⟨fun h => ⟨⟨h.shapeEq, h.batchEq⟩, h.slots⟩, fun h => ⟨⟨h.shapeEq, h.batchEq⟩, h.slots⟩⟩
  | some config =>
    constructor <;> rintro ⟨keys, salt, h⟩ <;>
      exact ⟨keys, salt, ⟨h.shapeEq, h.batchEq⟩, h.deviceKeys, h.deviceSalt, h.keySize,
        h.saltSize, h.derives⟩

theorem record_spec : Triple (Held kernels smooth idle state) (record kernels)
    (fun _ => Held kernels smooth idle state) (Failed smooth) := driverCall_spec _

theorem launchFirstBlocks_spec (config : FirstBlockConfig) :
    Triple (Held kernels smooth False (StagedFor kernels shape batchSize first · (some config)))
      (launchFirstBlocks kernels config)
      (fun _ => Held kernels smooth False (Seeded shape batchSize first)) (Failed smooth) := by
  refine Triple.get_bind fun w h => ?_
  obtain ⟨keys, salt, hstaged⟩ := (framed_stagedFor (some config)).drained.1 h.state
  rw [hstaged.deviceKeys, hstaged.deviceSalt]
  have hdrained : DeviceStaged kernels shape batchSize first config keys salt
      (w.device.drained kernels) := by
    obtain ⟨memory, blocksOut, heq⟩ := drained_eq kernels w.device
    rw [heq]
    exact ⟨⟨hstaged.shapeEq, hstaged.batchEq⟩, hstaged.deviceKeys, hstaged.deviceSalt,
      hstaged.keySize, hstaged.saltSize, hstaged.derives⟩
  refine Triple.pre
    (P := Held kernels smooth False (DeviceStaged kernels shape batchSize first config keys salt))
    (enqueue_spec _ ?_ fun runner hsound => firstBlocks_seeded hsound) ?_
  · intro runner hsound hrunner
    obtain ⟨memory, blocksOut, heq⟩ := drained_eq kernels runner
    rw [heq] at hrunner
    have hbatch : runner.batchSize = batchSize := hrunner.batchEq
    refine firstBlocks_inBounds hsound hrunner.deviceKeys hrunner.deviceSalt ?_ hrunner.saltSize
    rw [hbatch]
    exact hrunner.keySize
  · rintro s rfl
    exact ⟨h.sound, h.log, h.turns, False.elim, hdrained⟩

theorem queueFirstBlocks_spec (pending : Option FirstBlockConfig) :
    Triple (Held kernels smooth False (StagedFor kernels shape batchSize first · pending))
      (queueFirstBlocks kernels pending)
      (fun _ => Held kernels smooth False (Seeded shape batchSize first)) (Failed smooth) := by
  cases pending with
  | none =>
    refine Triple.bind (enqueue_spec _ (fun runner hsound _ => inputCopy_inBounds hsound)
      fun runner hsound => copyInput_seeded hsound) fun _ => ?_
    exact record_spec.bind fun _ => record_spec.bind fun _ => record_spec
  | some config =>
    refine record_spec.bind fun _ => record_spec.bind fun _ => ?_
    exact (launchFirstBlocks_spec config).bind fun _ => record_spec

/-- A batch queued on a runner ends with its own last blocks in the read-back buffer. -/
theorem run_spec : Triple
    (Held kernels smooth False fun runner =>
      StagedFor kernels shape batchSize first runner runner.pendingFirstBlocks)
    (KernelRunner.run kernels)
    (fun _ => Held kernels smooth False (Hashed kernels shape batchSize first))
    (Failed smooth) := by
  refine record_spec.bind fun _ => record_spec.bind fun _ => Triple.get_bind fun w h => ?_
  have hpending : (w.device.drained kernels).pendingFirstBlocks = w.device.pendingFirstBlocks := by
    obtain ⟨memory, blocksOut, heq⟩ := drained_eq kernels w.device
    rw [heq]
    rfl
  have hstaged := h.state
  rw [hpending, (framed_stagedFor _).drained] at hstaged
  refine Triple.bind (Triple.update (Q := fun _ => Held kernels smooth False
    (StagedFor kernels shape batchSize first · w.device.pendingFirstBlocks)) ?_) fun _ => ?_
  · rintro s rfl
    refine h.over (h.sound.prepared _ _) rfl ((framed_stagedFor _).drained.2 ?_)
    cases hconfig : s.device.pendingFirstBlocks with
    | none =>
      rw [hconfig] at hstaged
      exact ⟨⟨hstaged.shapeEq, hstaged.batchEq⟩, hstaged.slots⟩
    | some config =>
      rw [hconfig] at hstaged
      obtain ⟨keys, salt, hs⟩ := hstaged
      exact ⟨keys, salt, ⟨hs.shapeEq, hs.batchEq⟩, hs.deviceKeys, hs.deviceSalt, hs.keySize,
        hs.saltSize, hs.derives⟩
  · refine (queueFirstBlocks_spec _).bind fun _ => record_spec.bind fun _ => ?_
    refine Triple.bind (enqueue_spec _ (fun runner hsound _ => oneshot_inBounds hsound)
      fun runner hsound => oneshot_chained hsound) fun _ => record_spec.bind fun _ => ?_
    exact Triple.bind (enqueue_spec _ (fun runner hsound _ => outputCopy_inBounds hsound)
      fun runner hsound => copyOutput_hashed hsound) fun _ => record_spec

theorem elapsedMs_spec : Triple (Held kernels smooth idle state) (elapsedMs kernels)
    (fun _ => Held kernels smooth idle state) (Failed smooth) := driverCall_spec _

/-- Once it has returned, nothing is queued. -/
theorem finish_spec : Triple (Held kernels smooth idle state) (KernelRunner.finish kernels)
    (fun _ => Held kernels smooth True state) (Failed smooth) := by
  refine synchronize_spec.bind fun _ => elapsedMs_spec.bind fun _ => elapsedMs_spec.bind fun _ => ?_
  refine Triple.get_bind fun w h => Triple.pre ?_ fun s hs => hs ▸ h
  dsimp only
  refine Triple.ite (fun _ => elapsedMs_spec.bind fun _ => ?_) fun _ => ?_ <;>
    exact elapsedMs_spec.bind fun _ => elapsedMs_spec

end TreeMiner.Gpu
