import TreeMiner.Gpu.Argon2
import TreeMiner.Kernel.Launch

/-! The kernels themselves. A launch of `argon2_first_blocks_kernel` or
`argon2_kernel_oneshot` does to the pool what its operation on the stream says. -/

namespace TreeMiner.Gpu

open Host Lib
open Kernel (Bytes Memory FirstBlocksArgs WorkItem gridItems gridSize jobId outputAt load64)
open Kernel.Blake2b (bytesOf bytesOf_getD)

/-! ## First blocks -/

section

variable {self : KernelRunner} {keys salt : DeviceBuffer} {config : FirstBlockConfig}
  {batchSize : UInt64} {items : List WorkItem}

/-- In whatever order its work-items run, the launch writes the first blocks of every job and
nothing else. -/
theorem firstBlocks_launch (hkeys : self.deviceKeys = some keys)
    (hsalt : self.deviceSalt = some salt) (hlanes : config.shape.lanes = 1)
    (hgrid : gridSize batchSize < 2 ^ 32)
    (hresident : (FirstBlocksArgs.ofShape config.shape batchSize config.keyLength
      config.saltLength).Resident) (hitems : items.Perm (gridItems (gridSize batchSize))) :
    ((Operation.firstBlocks keys.address salt.address config config.shape.segmentBlocks
      batchSize.toNat).perform argon2Kernels self).memory.bytes =
      Kernel.launch (.ofShape config.shape batchSize config.keyLength config.saltLength)
        keys.bytes salt.bytes self.memory.bytes items := by
  let args := FirstBlocksArgs.ofShape config.shape batchSize config.keyLength config.saltLength
  have hstride : 2048 ≤ args.stride := Kernel.stride_ofShape hlanes
  have hrow : ∀ job, job < args.batchSize → outputAt args job = job.toNat * args.stride :=
    fun job hjob => Kernel.outputAt_eq hresident (by omega) hjob
  have hperform : ((Operation.firstBlocks keys.address salt.address config
      config.shape.segmentBlocks batchSize.toNat).perform argon2Kernels self).memory.bytes =
      setRows args.stride batchSize.toNat 0 2048 (fun job => argon2Kernels.firstBlocks config.shape
        (bytesOf (fun i => keys.bytes (job * config.keyLength.toNat + i)) config.keyLength.toNat)
        (bytesOf salt.bytes config.saltLength.toNat)) self.memory.bytes := by
    unfold Operation.perform KernelRunner.setMemory
    rw [hkeys, hsalt]
    rfl
  rw [hperform]
  funext a
  unfold setRows
  split_ifs with hin
  · obtain ⟨hjob, -, hcolumn⟩ := hin
    have hsmall : a / args.stride < 2 ^ 64 := lt_trans hjob batchSize.toNat_lt
    have htoNat : (UInt64.ofNat (a / args.stride)).toNat = a / args.stride := by
      rw [UInt64.toNat_ofNat', Nat.mod_eq_of_lt hsmall]
    have hlt : UInt64.ofNat (a / args.stride) < args.batchSize := by
      rw [UInt64.lt_iff_toNat_lt, htoNat]
      exact hjob
    obtain ⟨item, hmem, hid⟩ := @Kernel.exists_gridItem args _ rfl hgrid hlt
    have hslot := @Kernel.launch_slot args keys.bytes salt.bytes self.memory.bytes items _
      hresident hstride hlt ⟨item, hitems.mem_iff.2 hmem, hid⟩ _ hcolumn
    rw [hrow _ hlt, htoNat, Nat.div_add_mod', Kernel.jobBlocks_ofShape hlanes hresident hlt,
      htoNat] at hslot
    exact hslot.symm
  · refine (Kernel.launch_frame fun item _ hjob hmeet => hin ?_).symm
    have hslot : (jobId args item).toNat * args.stride ≤ a ∧
        a < (jobId args item).toNat * args.stride + 2048 := by
      rw [← hrow _ hjob]
      exact hmeet
    have hrowOf : a / args.stride = (jobId args item).toNat :=
      (Nat.div_eq_iff (by omega)).2 ⟨hslot.1, by omega⟩
    have hcolumnOf : a % args.stride = a - (jobId args item).toNat * args.stride := by
      rw [← hrowOf, Nat.mod_eq_sub_div_mul]
    rw [hrowOf, hcolumnOf]
    exact ⟨UInt64.lt_iff_toNat_lt.1 hjob, Nat.zero_le _, by omega⟩

end

/-! ## Words of memory -/

/-- A byte of a word read from memory is the byte in memory. -/
theorem load64_byte (src : Bytes) {i : Nat} (hi : i < 8) :
    (load64 src >>> UInt64.ofNat (8 * i)).toUInt8 = src i := by
  let digits := (List.range 8).map fun j => (src j).toNat
  have hdigits : ∀ d ∈ digits, d < 256 := by
    intro d hd
    obtain ⟨j, -, rfl⟩ := List.mem_map.1 hd
    exact (src j).toNat_lt
  have hvalue : (load64 src).toNat = Nat.ofDigits 256 digits := Kernel.load_toNat src (le_refl 8)
  have hdrop : digits.drop i = (src i).toNat :: digits.drop (i + 1) := by
    have hlen : i < digits.length := by rwa [List.length_map, List.length_range]
    rw [List.drop_eq_getElem_cons hlen, List.getElem_map, List.getElem_range]
  have hbyte := (src i).toNat_lt
  rw [Kernel.Blake2b.store64_byte _ hi, hvalue,
    Nat.ofDigits_div_pow_eq_ofDigits_drop i (by decide) digits hdigits, hdrop, Nat.ofDigits_cons,
    ← UInt8.toNat_inj, UInt8.toNat_ofNat']
  omega

/-- A word depends on its eight bytes. -/
theorem load64_congr {src src' : Bytes} (h : ∀ i < 8, src i = src' i) :
    load64 src = load64 src' := by
  unfold load64
  exact List.foldl_ext _ _ _ fun value i hi => by rw [h i (List.mem_range.1 hi)]

/-- The bytes of the words of a memory are the memory. -/
theorem wordBytes_wordsOf (bytes : Bytes) : wordBytes (wordsOf bytes) = bytes := by
  funext a
  unfold wordBytes wordsOf
  rw [load64_byte _ (Nat.mod_lt a (by decide)), Nat.div_add_mod]

/-! ## The lanes -/

section

variable {segmentBlocks : UInt32} {memory : Memory} {jobs : List Nat}

/-- Words between one lane and the next. -/
def laneWords (segmentBlocks : UInt32) : Nat := 4 * segmentBlocks.toNat * Kernel.QWORDS_IN_BLOCK

/-- The memory from a lane on. -/
def laneAt (segmentBlocks : UInt32) (memory : Memory) (row : Nat) : Memory :=
  fun i => memory (row * laneWords segmentBlocks + i)

/-- A word of a lane that Argon2id fills from its first two blocks. -/
def laneWord (segmentBlocks : UInt32) (lane : Memory) (column : Nat) : UInt64 :=
  Argon2.blocks segmentBlocks.toNat (Kernel.blockAt lane 0)
    (Kernel.blockAt lane Kernel.QWORDS_IN_BLOCK) (column / Kernel.QWORDS_IN_BLOCK)
    (Fin.ofNat 128 column)

theorem laneWord_congr {lane lane' : Memory} (h : ∀ i < 256, lane i = lane' i) :
    laneWord segmentBlocks lane = laneWord segmentBlocks lane' := by
  have hfirst : Kernel.blockAt lane 0 = Kernel.blockAt lane' 0 :=
    funext fun i => h _ (by omega)
  have hsecond : Kernel.blockAt lane Kernel.QWORDS_IN_BLOCK =
      Kernel.blockAt lane' Kernel.QWORDS_IN_BLOCK :=
    funext fun i => h (128 + i.val) (by omega)
  unfold laneWord
  rw [hfirst, hsecond]

/-- `argon2_kernel_oneshot` over the jobs of a batch. -/
def launchLanes (segmentBlocks : UInt32) (memory : Memory) (jobs : List Nat) : Memory :=
  jobs.foldl (fun memory job => Kernel.argon2KernelOneshot memory job segmentBlocks) memory

theorem oneshot_apply (hseg : 2 ≤ segmentBlocks.toNat) (hfit : 4 * segmentBlocks.toNat < 2 ^ 32)
    (job word : Nat) : Kernel.argon2KernelOneshot memory job segmentBlocks word =
      if word / laneWords segmentBlocks = job ∧ 256 ≤ word % laneWords segmentBlocks then
        laneWord segmentBlocks (laneAt segmentBlocks memory job) (word % laneWords segmentBlocks)
      else memory word := by
  obtain ⟨hfills, hrest⟩ := Kernel.oneshot_fills memory job segmentBlocks hseg hfit
  have hblock : Kernel.QWORDS_IN_BLOCK = 128 := rfl
  have hlane : laneWords segmentBlocks = 4 * segmentBlocks.toNat * 128 := rfl
  have hword := Nat.div_add_mod' word (laneWords segmentBlocks)
  have hcolumn : word % laneWords segmentBlocks < laneWords segmentBlocks :=
    Nat.mod_lt _ (by omega)
  have hassoc : job * (4 * segmentBlocks.toNat) * Kernel.QWORDS_IN_BLOCK =
      job * laneWords segmentBlocks := Nat.mul_assoc _ _ _
  rw [hassoc, hblock] at hfills hrest
  split_ifs with hin
  · obtain ⟨rfl, hfrom⟩ := hin
    have hfilled := congrFun (hfills (word % laneWords segmentBlocks / 128) (by omega))
      (Fin.ofNat 128 (word % laneWords segmentBlocks))
    have haddress : word / laneWords segmentBlocks * laneWords segmentBlocks +
        word % laneWords segmentBlocks / 128 * 128 + word % laneWords segmentBlocks % 128 =
        word := by
      omega
    have hfirst : Kernel.blockAt memory (word / laneWords segmentBlocks * laneWords segmentBlocks) =
        Kernel.blockAt (laneAt segmentBlocks memory (word / laneWords segmentBlocks)) 0 :=
      funext fun i => by unfold Kernel.blockAt laneAt; rw [Nat.zero_add]
    have hsecond : Kernel.blockAt memory
        (word / laneWords segmentBlocks * laneWords segmentBlocks + 128) =
        Kernel.blockAt (laneAt segmentBlocks memory (word / laneWords segmentBlocks)) 128 :=
      funext fun i => by unfold Kernel.blockAt laneAt; rw [Nat.add_assoc]
    rw [hfirst, hsecond] at hfilled
    change Kernel.argon2KernelOneshot memory _ segmentBlocks (_ + _ * 128 + _ % 128) = _ at hfilled
    rw [haddress] at hfilled
    exact hfilled
  · refine hrest word ?_
    by_contra hmeet
    rw [not_or, Nat.not_lt, Nat.not_le] at hmeet
    have hrow : word / laneWords segmentBlocks = job :=
      (Nat.div_eq_iff (by omega)).2 ⟨by omega, by omega⟩
    exact hin ⟨hrow, by rw [hrow] at hword; omega⟩

/-- No job touches the first two blocks of a lane. -/
theorem oneshot_first (hseg : 2 ≤ segmentBlocks.toNat) (hfit : 4 * segmentBlocks.toNat < 2 ^ 32)
    (job row : Nat) {column : Nat} (hcolumn : column < 256) :
    laneAt segmentBlocks (Kernel.argon2KernelOneshot memory job segmentBlocks) row column =
      laneAt segmentBlocks memory row column := by
  have hlong : 256 < laneWords segmentBlocks := by
    unfold laneWords Kernel.QWORDS_IN_BLOCK
    omega
  have hmod : (row * laneWords segmentBlocks + column) % laneWords segmentBlocks = column := by
    rw [Nat.mul_comm, Nat.mul_add_mod, Nat.mod_eq_of_lt (by omega)]
  unfold laneAt
  rw [oneshot_apply hseg hfit, hmod, if_neg fun h => absurd h.2 (by omega)]

/-- Each lane is filled from what stood in it before the launch. -/
theorem launchLanes_apply (hseg : 2 ≤ segmentBlocks.toNat)
    (hfit : 4 * segmentBlocks.toNat < 2 ^ 32) (word : Nat) :
    launchLanes segmentBlocks memory jobs word =
      if word / laneWords segmentBlocks ∈ jobs ∧ 256 ≤ word % laneWords segmentBlocks then
        laneWord segmentBlocks (laneAt segmentBlocks memory (word / laneWords segmentBlocks))
          (word % laneWords segmentBlocks)
      else memory word := by
  induction jobs generalizing memory with
  | nil => exact (if_neg fun h => List.not_mem_nil h.1).symm
  | cons job jobs ih =>
    refine (@ih (Kernel.argon2KernelOneshot memory job segmentBlocks)).trans ?_
    rw [laneWord_congr fun i hi => oneshot_first hseg hfit job _ hi, oneshot_apply hseg hfit]
    by_cases hcolumn : 256 ≤ word % laneWords segmentBlocks
    · by_cases hlater : word / laneWords segmentBlocks ∈ jobs
      · rw [if_pos ⟨hlater, hcolumn⟩, if_pos ⟨List.mem_cons_of_mem _ hlater, hcolumn⟩]
      · rw [if_neg fun h => hlater h.1]
        by_cases hthis : word / laneWords segmentBlocks = job
        · rw [if_pos ⟨hthis, hcolumn⟩, if_pos ⟨by rw [hthis]; exact List.mem_cons_self, hcolumn⟩,
            hthis]
        · rw [if_neg fun h => hthis h.1, if_neg fun h => (List.mem_cons.1 h.1).elim hthis hlater]
    · rw [if_neg fun h => hcolumn h.2, if_neg fun h => hcolumn h.2, if_neg fun h => hcolumn h.2]

/-- A byte of a lane, as the operation has it. -/
theorem argon2Kernels_oneshot (first : List UInt8) (i : Nat) :
    argon2Kernels.oneshot segmentBlocks first i =
      (laneWord segmentBlocks (wordsOf fun k => first.getD k 0) (i / 8) >>>
        UInt64.ofNat (8 * (i % 8))).toUInt8 := by
  have hblock : i / 1024 = i / 8 / 128 := by omega
  have hword : (Fin.ofNat 128 (i % 1024 / 8) : Fin 128) = Fin.ofNat 128 (i / 8) :=
    Fin.ext (show i % 1024 / 8 % 128 = i / 8 % 128 by omega)
  have hbyte : i % 1024 % 8 = i % 8 := by omega
  unfold argon2Kernels wordBytes laneWord Host.ARGON2_BLOCK_SIZE Kernel.QWORDS_IN_BLOCK
  dsimp only
  rw [hblock, hword, hbyte]

theorem stride_eq (hfit : 4 * segmentBlocks.toNat < 2 ^ 32) :
    stride segmentBlocks = 8 * laneWords segmentBlocks := by
  unfold stride laneWords Kernel.QWORDS_IN_BLOCK Host.ARGON2_BLOCK_SIZE
  rw [UInt32.toNat_mul, Nat.mod_eq_of_lt (by exact hfit), show (4 : UInt32).toNat = 4 from rfl]
  omega

/-- The words of a job's first blocks are those its lane starts with. -/
theorem wordsOf_first (hfit : 4 * segmentBlocks.toNat < 2 ^ 32) (bytes : Bytes) (row : Nat)
    {i : Nat} (hi : i < 256) : wordsOf (fun k =>
      (bytesOf (fun i => bytes (row * stride segmentBlocks + i)) 2048).getD k 0) i =
      laneAt segmentBlocks (wordsOf bytes) row i := by
  unfold laneAt wordsOf
  refine load64_congr fun k hk => ?_
  dsimp only
  rw [bytesOf_getD (by omega), stride_eq hfit, Nat.mul_add 8, Nat.mul_left_comm 8, Nat.add_assoc]

/-- Whatever order the jobs run in, the launch fills every lane behind its first blocks and
writes nothing else. -/
theorem oneshot_launch {self : KernelRunner} {batchSize : Nat} (hseg : 2 ≤ segmentBlocks.toNat)
    (hfit : 4 * segmentBlocks.toNat < 2 ^ 32) (hjobs : jobs.Perm (List.range batchSize)) :
    ((Operation.oneshot segmentBlocks batchSize).perform argon2Kernels self).memory.bytes =
      wordBytes (launchLanes segmentBlocks (wordsOf self.memory.bytes) jobs) := by
  have hstride := stride_eq hfit
  have hlong : 2 * 128 < laneWords segmentBlocks := by
    unfold laneWords Kernel.QWORDS_IN_BLOCK
    omega
  have hperform :
      ((Operation.oneshot segmentBlocks batchSize).perform argon2Kernels self).memory.bytes =
        setRows (stride segmentBlocks) batchSize 2048 (stride segmentBlocks)
          (fun job => argon2Kernels.oneshot segmentBlocks
            (bytesOf (fun i => self.memory.bytes (job * stride segmentBlocks + i)) 2048))
          self.memory.bytes := rfl
  funext a
  have hrow : a / 8 / laneWords segmentBlocks = a / stride segmentBlocks := by
    rw [hstride, Nat.div_div_eq_div_mul]
  have hcolumn : a / 8 % laneWords segmentBlocks = a % stride segmentBlocks / 8 := by
    rw [hstride, Nat.mod_mul_right_div_self]
  have hbyte : a % 8 = a % stride segmentBlocks % 8 := by
    rw [hstride, Nat.mod_mul_right_mod]
  have hlt : a % stride segmentBlocks < stride segmentBlocks := Nat.mod_lt _ (by omega)
  have hwords : (a / stride segmentBlocks ∈ jobs ∧ 256 ≤ a % stride segmentBlocks / 8) ↔
      a / stride segmentBlocks < batchSize ∧ 2048 ≤ a % stride segmentBlocks ∧
        a % stride segmentBlocks < stride segmentBlocks := by
    rw [hjobs.mem_iff, List.mem_range]
    exact and_congr_right fun _ => by omega
  rw [hperform]
  unfold setRows wordBytes
  rw [launchLanes_apply hseg hfit, hrow, hcolumn]
  by_cases hin : a / stride segmentBlocks < batchSize ∧ 2048 ≤ a % stride segmentBlocks ∧
      a % stride segmentBlocks < stride segmentBlocks
  · have hlane := @laneWord_congr segmentBlocks _ _ fun i hi =>
      wordsOf_first hfit self.memory.bytes (a / stride segmentBlocks) hi
    rw [if_pos hin, if_pos (hwords.2 hin)]
    dsimp only
    rw [argon2Kernels_oneshot, hlane, hbyte]
  · rw [if_neg hin, if_neg (mt hwords.1 hin)]
    exact (congrFun (wordBytes_wordsOf self.memory.bytes) a).symm

end

end TreeMiner.Gpu
