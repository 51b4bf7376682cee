import TreeMiner.Kernel.FirstBlocks

/-! The launch of `argon2_first_blocks_kernel` over a batch: whatever order the work-items
run in, every job's slot starts with the blocks the host writes. -/

namespace TreeMiner.Kernel

open Blake2b (bytesOf)

def THREADS_PER_BLOCK : UInt32 := 128

/-- The argument buffer of a batch, as the runner and the launch fill it. -/
def FirstBlocksArgs.ofShape (shape : Host.Argon2Shape) (batchSize : UInt64)
    (keyLength saltLength : UInt32) : FirstBlocksArgs where
  batchSize
  keyLength
  saltLength
  outputLength := shape.outputLength
  memoryCost := shape.memoryCost
  timeCost := shape.passes
  version := shape.version
  type_ := shape.type_
  lanes := shape.lanes
  segmentBlocks := shape.segmentBlocks
  threadsPerBlock := THREADS_PER_BLOCK

/-- The workgroups of a batch. -/
def gridSize (batchSize : UInt64) : Nat :=
  (batchSize.toNat + THREADS_PER_BLOCK.toNat - 1) / THREADS_PER_BLOCK.toNat

/-- The work-items of a grid. -/
def gridItems (grid : Nat) : List WorkItem :=
  (List.range grid).flatMap fun workgroup =>
    (List.range THREADS_PER_BLOCK.toNat).map fun workitem =>
      ⟨UInt32.ofNat workgroup, UInt32.ofNat workitem⟩

/-- Bytes between one job and the next, of the lane's blocks. -/
def FirstBlocksArgs.stride (args : FirstBlocksArgs) : Nat :=
  (4 * args.segmentBlocks).toNat * 1024

/-- What the kernel asks of its buffers: they are in memory. -/
structure FirstBlocksArgs.Resident (args : FirstBlocksArgs) : Prop where
  memory : args.batchSize.toNat * args.stride ≤ 2 ^ 64
  keys : args.batchSize.toNat * args.keyLength.toNat ≤ 2 ^ 64

variable {args : FirstBlocksArgs} {keys salt memory : Bytes} {items : List WorkItem} {job : UInt64}

/-! ## Every job has its work-item -/

theorem jobId_gridItem (hthreads : args.threadsPerBlock = THREADS_PER_BLOCK)
    {workgroup workitem : Nat} (hgroup : workgroup < 2 ^ 32) (hitem : workitem < 128) :
    jobId args ⟨UInt32.ofNat workgroup, UInt32.ofNat workitem⟩ =
      UInt64.ofNat (workgroup * 128 + workitem) := by
  have hgroup' : (UInt32.ofNat workgroup).toNat = workgroup := by
    rw [UInt32.toNat_ofNat']
    omega
  have hitem' : (UInt32.ofNat workitem).toNat = workitem := by
    rw [UInt32.toNat_ofNat']
    omega
  have h128 : THREADS_PER_BLOCK.toNat = 128 := rfl
  unfold jobId
  rw [← UInt64.toNat_inj, UInt64.toNat_add, UInt64.toNat_mul, UInt64.toNat_ofNat', hthreads,
    UInt32.toNat_toUInt64, UInt32.toNat_toUInt64, UInt32.toNat_toUInt64, hgroup', hitem', h128]
  omega

theorem exists_gridItem (hthreads : args.threadsPerBlock = THREADS_PER_BLOCK)
    (hgrid : gridSize args.batchSize < 2 ^ 32) (hjob : job < args.batchSize) :
    ∃ item ∈ gridItems (gridSize args.batchSize), jobId args item = job := by
  have h128 : THREADS_PER_BLOCK.toNat = 128 := rfl
  have hlt := UInt64.lt_iff_toNat_lt.1 hjob
  have hgroup : job.toNat / 128 < gridSize args.batchSize := by
    unfold gridSize
    rw [h128]
    omega
  refine ⟨⟨UInt32.ofNat (job.toNat / 128), UInt32.ofNat (job.toNat % 128)⟩, ?_, ?_⟩
  · refine List.mem_flatMap.2 ⟨_, List.mem_range.2 hgroup, List.mem_map.2 ⟨_, ?_, rfl⟩⟩
    rw [List.mem_range, h128]
    omega
  · rw [jobId_gridItem hthreads (by omega) (by omega), Nat.div_add_mod', UInt64.ofNat_toNat]

/-! ## Slots -/

theorem outputAt_eq (h : args.Resident) (hstride : 0 < args.stride) (hjob : job < args.batchSize) :
    outputAt args job = job.toNat * args.stride := by
  have hlt := UInt64.lt_iff_toNat_lt.1 hjob
  have hfit : job.toNat * args.stride < 2 ^ 64 := by
    calc job.toNat * args.stride < args.batchSize.toNat * args.stride :=
          Nat.mul_lt_mul_of_pos_right hlt hstride
      _ ≤ 2 ^ 64 := h.memory
  have h1024 : (1024 : UInt64).toNat = 1024 := rfl
  unfold outputAt FirstBlocksArgs.stride at *
  rw [UInt64.toNat_mul, UInt64.toNat_mul, UInt32.toNat_toUInt64, h1024, Nat.mod_mul_mod,
    Nat.mul_assoc, Nat.mod_eq_of_lt hfit]

theorem passwordOf_eq (h : args.Resident) (hjob : job < args.batchSize) :
    passwordOf args keys job =
      bytesOf (fun i => keys (job.toNat * args.keyLength.toNat + i)) args.keyLength.toNat := by
  have hlt := UInt64.lt_iff_toNat_lt.1 hjob
  unfold passwordOf
  rcases Nat.eq_zero_or_pos args.keyLength.toNat with hzero | hpos
  · rw [hzero]
    rfl
  · have hfit : job.toNat * args.keyLength.toNat < 2 ^ 64 := by
      calc job.toNat * args.keyLength.toNat < args.batchSize.toNat * args.keyLength.toNat :=
            Nat.mul_lt_mul_of_pos_right hlt hpos
        _ ≤ 2 ^ 64 := h.keys
    rw [UInt64.toNat_mul, UInt32.toNat_toUInt64, Nat.mod_eq_of_lt hfit]

/-- Slots of different jobs do not meet. -/
theorem slots_disjoint (h : args.Resident) (hstride : 2048 ≤ args.stride) {job' : UInt64}
    (hjob : job < args.batchSize) (hjob' : job' < args.batchSize) {j j' : Nat} (hj : j < 2048)
    (hj' : j' < 2048) (hmeet : outputAt args job + j = outputAt args job' + j') : job = job' := by
  rw [outputAt_eq h (by omega) hjob, outputAt_eq h (by omega) hjob'] at hmeet
  have hdiv : ∀ n {k}, k < 2048 → (n * args.stride + k) / args.stride = n := by
    intro n k hk
    rw [Nat.mul_comm, Nat.mul_add_div (by omega), Nat.div_eq_of_lt (by omega), Nat.add_zero]
  have := congrArg (· / args.stride) hmeet
  rwa [hdiv _ hj, hdiv _ hj', UInt64.toNat_inj] at this

/-! ## Any order of the work-items -/

/-- A work-item changes its job's slot only. -/
theorem kernel_frame {item : WorkItem} {a : Nat}
    (h : jobId args item < args.batchSize →
      ¬ (outputAt args (jobId args item) ≤ a ∧ a < outputAt args (jobId args item) + 2048)) :
    argon2FirstBlocksKernel args keys salt memory item a = memory a := by
  by_cases hjob : jobId args item < args.batchSize
  · rw [kernel_eq hjob, writeList_apply, jobBlocks_length, if_neg (h hjob)]
  · unfold argon2FirstBlocksKernel
    dsimp only
    rw [if_pos (UInt64.not_lt.1 hjob)]

/-- What no job's slot holds stays as it was. -/
theorem launch_frame {a : Nat}
    (h : ∀ item ∈ items, jobId args item < args.batchSize →
      ¬ (outputAt args (jobId args item) ≤ a ∧ a < outputAt args (jobId args item) + 2048)) :
    launch args keys salt memory items a = memory a := by
  induction items generalizing memory with
  | nil => rfl
  | cons item items ih =>
    have hrest := @ih (argon2FirstBlocksKernel args keys salt memory item)
      fun item' hmem => h item' (List.mem_cons_of_mem _ hmem)
    exact hrest.trans (kernel_frame (h item List.mem_cons_self))

/-- Once its work-item has run, a job's slot keeps its blocks. -/
theorem launch_slot (h : args.Resident) (hstride : 2048 ≤ args.stride)
    (hjob : job < args.batchSize) (hitem : ∃ item ∈ items, jobId args item = job) {j : Nat}
    (hj : j < 2048) :
    launch args keys salt memory items (outputAt args job + j) =
      (jobBlocks args keys salt job).getD j 0 := by
  induction items generalizing memory with
  | nil =>
    obtain ⟨item, hmem, -⟩ := hitem
    cases hmem
  | cons item items ih =>
    by_cases hlater : ∃ item ∈ items, jobId args item = job
    · exact ih hlater
    · -- the last work-item of the job is this one: the others write elsewhere
      have hthis : jobId args item = job := by
        obtain ⟨item', hmem, hid⟩ := hitem
        rcases List.mem_cons.1 hmem with rfl | hmem
        · exact hid
        · exact absurd ⟨item', hmem, hid⟩ hlater
      have hframe : launch args keys salt (argon2FirstBlocksKernel args keys salt memory item) items
          (outputAt args job + j) =
          argon2FirstBlocksKernel args keys salt memory item (outputAt args job + j) := by
        refine launch_frame fun item' hmem hin hmeet => hlater ⟨item', hmem, ?_⟩
        exact slots_disjoint h hstride hin hjob
          (j := outputAt args job + j - outputAt args (jobId args item')) (by omega) hj (by omega)
      refine hframe.trans ?_
      rw [kernel_eq (by rwa [hthis]), hthis, writeList_apply, jobBlocks_length, if_pos (by omega),
        Nat.add_sub_cancel_left]

theorem launch_blocks (h : args.Resident) (hstride : 2048 ≤ args.stride)
    (hjob : job < args.batchSize) (hitem : ∃ item ∈ items, jobId args item = job) :
    bytesOf (fun j => launch args keys salt memory items (outputAt args job + j)) 2048 =
      jobBlocks args keys salt job := by
  unfold bytesOf
  refine List.ext_getElem ?_ fun j hj hj' => ?_
  · rw [List.length_map, List.length_range, jobBlocks_length]
  · rw [jobBlocks_length] at hj'
    rw [List.getElem_map, List.getElem_range, launch_slot h hstride hjob hitem hj']
    exact List.getD_eq_getElem _ _ _

/-! ## The host's shape -/

variable {shape : Host.Argon2Shape} {batchSize : UInt64} {keyLength saltLength : UInt32}

theorem stride_ofShape (hlanes : shape.lanes = 1) :
    2048 ≤ (FirstBlocksArgs.ofShape shape batchSize keyLength saltLength).stride := by
  have hblocks := Host.Argon2Shape.segmentBlocks_toNat hlanes
  have hcost := shape.memoryCost.toNat_lt
  unfold FirstBlocksArgs.stride FirstBlocksArgs.ofShape
  dsimp only
  rw [UInt32.toNat_mul, hblocks, show (4 : UInt32).toNat = 4 from rfl]
  omega

theorem jobBlocks_ofShape (hlanes : shape.lanes = 1)
    (h : (FirstBlocksArgs.ofShape shape batchSize keyLength saltLength).Resident)
    (hjob : job < batchSize) :
    jobBlocks (FirstBlocksArgs.ofShape shape batchSize keyLength saltLength) keys salt job =
      Host.firstBlocks shape
        (bytesOf (fun i => keys (job.toNat * keyLength.toNat + i)) keyLength.toNat)
        (bytesOf salt saltLength.toNat) := by
  have hpassword := @passwordOf_eq (FirstBlocksArgs.ofShape shape batchSize keyLength saltLength)
    keys job h hjob
  have hone : List.range shape.lanes.toNat = [0] := by
    rw [hlanes]
    rfl
  unfold jobBlocks Host.firstBlocks Host.laneBlocks
  rw [hpassword, hone]
  simp only [List.flatMap_cons, List.flatMap_nil, List.append_nil]
  rfl

/-- The device's hash is BLAKE2b however its input is cut up, and the two blocks a launch
leaves at the head of a job's slot are those the host fills a slot with, for the same
password, salt and shape. -/
theorem first_blocks_agree {blake2bVar : Nat → List (List UInt8) → List UInt8}
    (hb : Host.IsBlake2b blake2bVar) (hlanes : shape.lanes = 1)
    (hgrid : gridSize batchSize < 2 ^ 32)
    (hresident : (FirstBlocksArgs.ofShape shape batchSize keyLength saltLength).Resident)
    (keys salt memory : Bytes) (hitems : items.Perm (gridItems (gridSize batchSize)))
    (hjob : job < batchSize) {out : List UInt8} (hout : out.length = Host.slotBytes shape) :
    (∀ outLen : UInt32, outLen.toNat ≤ 64 → ∀ (pieces : List (Bytes × UInt32)) (mem : Bytes)
      (dst : Nat), ((Blake2b.init outLen).updates pieces).finalize mem dst outLen =
        writeList mem dst (Lib.Blake2b.hash outLen.toNat
          (pieces.flatMap fun piece => bytesOf piece.1 piece.2.toNat))) ∧
    let args := FirstBlocksArgs.ofShape shape batchSize keyLength saltLength
    let password := bytesOf (fun i => keys (job.toNat * keyLength.toNat + i)) keyLength.toNat
    Host.fillFirstBlocks blake2bVar out password (bytesOf salt saltLength.toNat) shape =
      .ok (bytesOf (fun j => launch args keys salt memory items (job.toNat * args.stride + j))
        2048) := by
  refine ⟨fun outLen hlen pieces mem dst => Blake2b.finalize_updates hlen pieces mem dst, ?_⟩
  intro args password
  have hstride : 2048 ≤ args.stride := stride_ofShape hlanes
  have hitem : ∃ item ∈ items, jobId args item = job := by
    obtain ⟨item, hmem, hid⟩ := @exists_gridItem args job rfl hgrid hjob
    exact ⟨item, hitems.mem_iff.2 hmem, hid⟩
  have hdevice := @launch_blocks args keys salt memory items job hresident hstride hjob hitem
  rw [outputAt_eq hresident (lt_of_lt_of_le (by decide) hstride) hjob,
    jobBlocks_ofShape hlanes hresident hjob] at hdevice
  rw [hdevice, Host.fillFirstBlocks_eq hb _ _ hout (by rw [hlanes]; decide)]

/-- A batch of two keys at difficulty 8. -/
theorem first_blocks_agree_pair :
    let shape := Host.Argon2Shape.forDifficulty 8
    let args := FirstBlocksArgs.ofShape shape 2 64 8
    let keys : Bytes := fun i => UInt8.ofNat (97 + i % 6)
    let salt : Bytes := fun i => UInt8.ofNat i
    Host.fillFirstBlocks (fun outLen parts => Lib.Blake2b.hash outLen parts.flatten)
        (List.replicate 2048 0) (bytesOf (fun i => keys (1 * 64 + i)) 64) (bytesOf salt 8) shape =
      .ok (bytesOf (fun j => launch args keys salt zeros (gridItems 1).reverse (1 * 8192 + j))
        2048) :=
  (@first_blocks_agree (gridItems 1).reverse 1 (Host.Argon2Shape.forDifficulty 8) 2 64 8 _
    (fun _ _ _ _ => rfl) rfl (by decide) ⟨by decide, by decide⟩
    (fun i => UInt8.ofNat (97 + i % 6)) (fun i => UInt8.ofNat i) zeros (List.reverse_perm _)
    (by decide) (List.replicate 2048 0) List.length_replicate).2

end TreeMiner.Kernel
