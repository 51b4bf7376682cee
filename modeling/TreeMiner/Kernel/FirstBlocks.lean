import TreeMiner.Host.Argon2
import TreeMiner.Kernel.Blake2b

/-! `argon2_first_blocks_kernel`: a work-item derives the two first blocks of its job, and
they are the blocks the host derives. -/

namespace TreeMiner.Kernel

open Lib
open Lib.Argon2 (le32 le32_length H0 longHash longHash_length longHash_eq_links links links_long
  links_short firstBlock)
open Blake2b (bytesOf bytesOf_length bytesOf_getD)

def ARGON2_BLOCK_SIZE : Nat := 1024

def ARGON2_PREHASH_DIGEST_LENGTH : Nat := 64

def ARGON2_PREHASH_SEED_LENGTH : UInt32 := 72

/-- Scratch as it is declared. -/
def zeros : Bytes := fun _ => 0

/-! ## The kernel -/

/-- The loop of `digest_long` behind its first link. -/
def digestLinks (mem : Bytes) (output : Nat) (outBuffer : Bytes) (toProduce : UInt32) : Bytes :=
  if BLAKE2B_OUT_BYTES < toProduce.toNat then
    let outBuffer := ((Blake2b.init 64).update outBuffer 64).finalize outBuffer 0 64
    let half := BLAKE2B_OUT_BYTES / 2
    let mem := copy mem output outBuffer half
    digestLinks mem (output + half) outBuffer (toProduce - 32)
  else ((Blake2b.init toProduce).update outBuffer 64).finalize mem output toProduce
termination_by toProduce.toNat
decreasing_by
  have hlong : 64 < toProduce.toNat := ‹_›
  have hle : (32 : UInt32) ≤ toProduce := by
    rw [UInt32.le_iff_toNat_le]
    exact Nat.le_of_lt (lt_trans (by decide) hlong)
  rw [UInt32.toNat_sub_of_le _ _ hle]
  have : (32 : UInt32).toNat = 32 := rfl
  omega

/-- `device_digest_long`, Argon2's variable-length hash H'. -/
def digestLong (mem : Bytes) (out : Nat) (outLen : UInt32) (input : Bytes) (inputLen : UInt32) :
    Bytes :=
  let outLenBytes := store32 zeros 0 outLen
  if outLen.toNat ≤ BLAKE2B_OUT_BYTES then
    (((Blake2b.init outLen).update outLenBytes 4).update input inputLen).finalize mem out outLen
  else
    let outBuffer :=
      (((Blake2b.init 64).update outLenBytes 4).update input inputLen).finalize zeros 0 64
    let half := BLAKE2B_OUT_BYTES / 2
    let mem := copy mem out outBuffer half
    digestLinks mem (out + half) outBuffer (outLen - 32)

/-- `device_initial_hash`, Argon2's H0. -/
def initialHash (mem : Bytes) (out : Nat) (password : Bytes) (passwordLen : UInt32) (salt : Bytes)
    (saltLen outputLen memoryCost timeCost version type_ lanes : UInt32) : Bytes :=
  let blake := Blake2b.init 64
  let fields := [lanes, outputLen, memoryCost, timeCost, version, type_, passwordLen]
  let header := fields.zipIdx.foldl (fun header p => store32 header (4 * p.2) p.1) zeros
  let blake := blake.update header 28
  let blake := blake.update password passwordLen
  let value := store32 zeros 0 saltLen
  let blake := blake.update value 4
  let blake := blake.update salt saltLen
  -- no secret and no associated data: two zero lengths
  let value := store32 value 0 0
  let blake := blake.update value 4
  let blake := blake.update value 4
  blake.finalize mem out 64

/-- The integers of the kernel's argument buffer. -/
structure FirstBlocksArgs where
  batchSize : UInt64
  keyLength : UInt32
  saltLength : UInt32
  outputLength : UInt32
  memoryCost : UInt32
  timeCost : UInt32
  version : UInt32
  type_ : UInt32
  lanes : UInt32
  segmentBlocks : UInt32
  threadsPerBlock : UInt32

/-- A work-item of the grid. -/
structure WorkItem where
  workgroupId : UInt32
  workitemId : UInt32

def jobId (args : FirstBlocksArgs) (item : WorkItem) : UInt64 :=
  item.workgroupId.toUInt64 * args.threadsPerBlock.toUInt64 + item.workitemId.toUInt64

/-- One work-item, from the device buffers to the memory it leaves. -/
def argon2FirstBlocksKernel (args : FirstBlocksArgs) (keys salt : Bytes) (memory : Bytes)
    (item : WorkItem) : Bytes :=
  let jobId := jobId args item
  if args.batchSize ≤ jobId then memory
  else
    let password := fun i => keys ((jobId * args.keyLength.toUInt64).toNat + i)
    let initHash := initialHash zeros 0 password args.keyLength salt args.saltLength
      args.outputLength args.memoryCost args.timeCost args.version args.type_ args.lanes
    let laneBlocks := (4 * args.segmentBlocks).toUInt64
    let output := (jobId * laneBlocks * 1024).toNat
    let initHash := store32 initHash ARGON2_PREHASH_DIGEST_LENGTH 0
    let initHash := store32 initHash (ARGON2_PREHASH_DIGEST_LENGTH + 4) 0
    let memory := digestLong memory output 1024 initHash ARGON2_PREHASH_SEED_LENGTH
    let initHash := store32 initHash ARGON2_PREHASH_DIGEST_LENGTH 1
    let initHash := store32 initHash (ARGON2_PREHASH_DIGEST_LENGTH + 4) 0
    digestLong memory (output + ARGON2_BLOCK_SIZE) 1024 initHash ARGON2_PREHASH_SEED_LENGTH

/-- The work-items of a launch, in the order they come to run. -/
def launch (args : FirstBlocksArgs) (keys salt memory : Bytes) (items : List WorkItem) : Bytes :=
  items.foldl (argon2FirstBlocksKernel args keys salt) memory

/-! ## Lists in memory -/

theorem writeList_apply (mem : Bytes) (dst : Nat) (bytes : List UInt8) (a : Nat) :
    writeList mem dst bytes a =
      if dst ≤ a ∧ a < dst + bytes.length then bytes.getD (a - dst) 0 else mem a :=
  copy_apply _ _ _ _ _

theorem writeList_append (mem : Bytes) (dst : Nat) (front back : List UInt8) :
    writeList (writeList mem dst front) (dst + front.length) back =
      writeList mem dst (front ++ back) := by
  funext a
  rw [writeList_apply, writeList_apply, writeList_apply, List.length_append]
  by_cases hback : dst + front.length ≤ a ∧ a < dst + front.length + back.length
  · rw [if_pos hback, if_pos (by omega), List.getD_append_right _ _ _ _ (by omega)]
    congr 1
    omega
  · rw [if_neg hback]
    by_cases hfront : dst ≤ a ∧ a < dst + front.length
    · rw [if_pos hfront, if_pos (by omega), List.getD_append _ _ _ _ (by omega)]
    · rw [if_neg hfront, if_neg (by omega)]

/-- What was written is read again. -/
theorem bytesOf_writeList (mem : Bytes) (dst : Nat) (bytes : List UInt8) :
    bytesOf (fun i => writeList mem dst bytes (dst + i)) bytes.length = bytes := by
  unfold bytesOf
  refine List.ext_getElem (by simp) fun i hi hi' => ?_
  rw [List.getElem_map, List.getElem_range, writeList_apply, if_pos (by omega),
    Nat.add_sub_cancel_left, List.getD_eq_getElem _ _ hi']

theorem bytesOf_scratch (mem : Bytes) (bytes : List UInt8) :
    bytesOf (writeList mem 0 bytes) bytes.length = bytes := by
  have h := bytesOf_writeList mem 0 bytes
  simpa only [Nat.zero_add] using h

theorem copy_eq (mem : Bytes) (dst : Nat) (src : Bytes) (n : Nat) :
    copy mem dst src n = writeList mem dst (bytesOf src n) := by
  funext a
  rw [copy_apply, writeList_apply, bytesOf_length]
  by_cases hin : dst ≤ a ∧ a < dst + n
  · rw [if_pos hin, if_pos hin, bytesOf_getD (by omega)]
  · rw [if_neg hin, if_neg hin]

theorem bytesOf_take (src : Bytes) {k n : Nat} (h : k ≤ n) :
    (bytesOf src n).take k = bytesOf src k := by
  unfold bytesOf
  rw [← List.map_take, List.take_range, Nat.min_eq_left h]

theorem store32_eq (mem : Bytes) (dst : Nat) (value : UInt32) :
    store32 mem dst value = writeList mem dst (le32 value.toNat) := by
  have hbytes : bytesOf (fun index => (value >>> UInt32.ofNat (8 * index)).toUInt8) 4 =
      le32 value.toNat := by
    refine List.map_congr_left fun j hj => ?_
    have hj := List.mem_range.1 hj
    have hshift : (UInt32.ofNat (8 * j)).toNat % 32 = 8 * j := by
      rw [UInt32.toNat_ofNat']
      omega
    rw [← UInt8.toNat_inj, UInt32.toNat_toUInt8, UInt32.toNat_shiftRight, hshift,
      Nat.shiftRight_eq_div_pow, UInt8.toNat_ofNat', Nat.pow_mul]
  unfold store32
  rw [copy_eq, hbytes]

/-- A header of integers stands in a row. -/
theorem foldl_store32 (mem : Bytes) (fields : List UInt32) (k : Nat) :
    (fields.zipIdx k).foldl (fun header p => store32 header (4 * p.2) p.1) mem =
      writeList mem (4 * k) (fields.flatMap fun field => le32 field.toNat) := by
  induction fields generalizing mem k with
  | nil =>
    funext a
    rw [writeList_apply, if_neg (by simp)]
    rfl
  | cons field fields ih =>
    rw [List.zipIdx_cons, List.foldl_cons, ih, store32_eq, List.flatMap_cons, ← writeList_append,
      le32_length]
    rfl

/-! ## The hashes of the device -/

/-- One link: a hash of a full buffer. -/
theorem link_eq (mem : Bytes) (out : Nat) (outBuffer : Bytes) {outLen : UInt32}
    (h : outLen.toNat ≤ 64) :
    ((Blake2b.init outLen).update outBuffer 64).finalize mem out outLen =
      writeList mem out (Lib.Blake2b.hash outLen.toNat (bytesOf outBuffer 64)) := by
  have := Blake2b.finalize_updates h [(outBuffer, 64)] mem out
  rwa [List.flatMap_singleton] at this

theorem digestLinks_eq (mem : Bytes) (output : Nat) (outBuffer : Bytes) (toProduce : UInt32) :
    digestLinks mem output outBuffer toProduce =
      writeList mem output (links (bytesOf outBuffer 64) toProduce.toNat) := by
  induction mem, output, outBuffer, toProduce using digestLinks.induct with
  | case1 mem output outBuffer toProduce hlong next half mem' ih =>
    have hlong' : 64 < toProduce.toNat := hlong
    have hnext : next = writeList outBuffer 0 (Lib.Blake2b.hash 64 (bytesOf outBuffer 64)) :=
      link_eq outBuffer 0 outBuffer (by decide)
    have hbytes : bytesOf next 64 = Lib.Blake2b.hash 64 (bytesOf outBuffer 64) := by
      rw [hnext]
      have := bytesOf_scratch outBuffer (Lib.Blake2b.hash 64 (bytesOf outBuffer 64))
      rwa [Lib.Blake2b.hash_length] at this
    have hmem : mem' =
        writeList mem output ((Lib.Blake2b.hash 64 (bytesOf outBuffer 64)).take 32) := by
      rw [← hbytes, bytesOf_take _ (by decide)]
      exact copy_eq mem output next 32
    have hsub : (toProduce - 32).toNat = toProduce.toNat - 32 :=
      UInt32.toNat_sub_of_le _ _
        (UInt32.le_iff_toNat_le.2 (Nat.le_of_lt (lt_trans (by decide) hlong')))
    have hhalf : ((Lib.Blake2b.hash 64 (bytesOf outBuffer 64)).take 32).length = half := by
      rw [List.length_take, Lib.Blake2b.hash_length]
      rfl
    rw [digestLinks, if_pos hlong]
    refine ih.trans ?_
    rw [hbytes, hmem, hsub, ← hhalf, writeList_append, links_long hlong']
  | case2 mem output outBuffer toProduce hshort =>
    have hshort' : ¬ 64 < toProduce.toNat := hshort
    rw [digestLinks, if_neg hshort, links_short hshort']
    exact link_eq mem output outBuffer (by omega)

theorem bytesOf_store32 (mem : Bytes) (value : UInt32) :
    bytesOf (store32 mem 0 value) 4 = le32 value.toNat := by
  rw [store32_eq]
  exact bytesOf_scratch mem (le32 value.toNat)

/-- The device's H' is H'. -/
theorem digestLong_eq (mem : Bytes) (out : Nat) (outLen : UInt32) (input : Bytes)
    (inputLen : UInt32) : digestLong mem out outLen input inputLen =
      writeList mem out (longHash outLen.toNat (bytesOf input inputLen.toNat)) := by
  have hhead : [(store32 zeros 0 outLen, (4 : UInt32)), (input, inputLen)].flatMap
      (fun piece => bytesOf piece.1 piece.2.toNat) =
      le32 outLen.toNat ++ bytesOf input inputLen.toNat := by
    rw [List.flatMap_cons, List.flatMap_singleton]
    exact congrArg (· ++ bytesOf input inputLen.toNat) (bytesOf_store32 zeros outLen)
  have hfirst : ∀ (mem : Bytes) (out : Nat) {len : UInt32}, len.toNat ≤ 64 →
      (((Blake2b.init len).update (store32 zeros 0 outLen) 4).update input inputLen).finalize
        mem out len = writeList mem out (Lib.Blake2b.hash len.toNat
          (le32 outLen.toNat ++ bytesOf input inputLen.toNat)) := by
    intro mem out len hlen
    have := Blake2b.finalize_updates hlen
      [(store32 zeros 0 outLen, 4), (input, inputLen)] mem out
    rwa [hhead] at this
  unfold digestLong
  dsimp only
  split_ifs with hshort
  · have hshort' : outLen.toNat ≤ 64 := hshort
    rw [hfirst mem out hshort', longHash, if_pos hshort']
  · have hlong : 64 < outLen.toNat := not_le.1 hshort
    have hsub : (outLen - 32).toNat = outLen.toNat - 32 :=
      UInt32.toNat_sub_of_le _ _
        (UInt32.le_iff_toNat_le.2 (Nat.le_of_lt (lt_trans (by decide) hlong)))
    generalize hv : Lib.Blake2b.hash 64 (le32 outLen.toNat ++ bytesOf input inputLen.toNat) = v
    have hlen : v.length = 64 := by rw [← hv, Lib.Blake2b.hash_length]
    have hbuffer : (((Blake2b.init 64).update (store32 zeros 0 outLen) 4).update input
        inputLen).finalize zeros 0 64 = writeList zeros 0 v := by
      rw [hfirst zeros 0 (by decide), ← hv]
      rfl
    have hbytes : bytesOf (writeList zeros 0 v) 64 = v := by
      have := bytesOf_scratch zeros v
      rwa [hlen] at this
    have hcopy : copy mem out (writeList zeros 0 v) (BLAKE2B_OUT_BYTES / 2) =
        writeList mem out (v.take 32) := by
      rw [copy_eq, ← bytesOf_take _ (show BLAKE2B_OUT_BYTES / 2 ≤ 64 by decide), hbytes]
      rfl
    have hhalf : (v.take 32).length = BLAKE2B_OUT_BYTES / 2 := by
      rw [List.length_take, hlen]
      rfl
    rw [hbuffer, hcopy, digestLinks_eq, hbytes, hsub, ← hhalf, writeList_append,
      longHash_eq_links hlong, hv]

/-- The inputs of H0 a launch has besides its passwords and its salt. -/
def FirstBlocksArgs.params (args : FirstBlocksArgs) : Lib.Argon2.Params where
  lanes := args.lanes.toNat
  tagLength := args.outputLength.toNat
  memoryCost := args.memoryCost.toNat
  passes := args.timeCost.toNat
  version := args.version.toNat
  type := args.type_.toNat

/-- The device's H0 is H0. -/
theorem initialHash_eq (args : FirstBlocksArgs) (password salt : Bytes) :
    initialHash zeros 0 password args.keyLength salt args.saltLength args.outputLength
      args.memoryCost args.timeCost args.version args.type_ args.lanes =
      writeList zeros 0 (H0 args.params (bytesOf password args.keyLength.toNat)
        (bytesOf salt args.saltLength.toNat)) := by
  have hheader : bytesOf ([args.lanes, args.outputLength, args.memoryCost, args.timeCost,
      args.version, args.type_, args.keyLength].zipIdx.foldl
        (fun header p => store32 header (4 * p.2) p.1) zeros) 28 =
      [args.lanes, args.outputLength, args.memoryCost, args.timeCost, args.version, args.type_,
        args.keyLength].flatMap fun field => le32 field.toNat := by
    rw [foldl_store32]
    exact bytesOf_scratch zeros _
  have hzero : ∀ mem, bytesOf (store32 mem 0 0) 4 = le32 0 := fun mem => bytesOf_store32 mem 0
  have h := @Blake2b.finalize_updates 64 (by decide) [
    (([args.lanes, args.outputLength, args.memoryCost, args.timeCost, args.version, args.type_,
      args.keyLength].zipIdx.foldl (fun header p => store32 header (4 * p.2) p.1) zeros), 28),
    (password, args.keyLength), (store32 zeros 0 args.saltLength, 4), (salt, args.saltLength),
    (store32 (store32 zeros 0 args.saltLength) 0 0, 4),
    (store32 (store32 zeros 0 args.saltLength) 0 0, 4)] zeros 0
  refine Eq.trans h (congrArg (fun msg => writeList zeros 0 (Lib.Blake2b.hash 64 msg)) ?_)
  have h4 : (4 : UInt32).toNat = 4 := rfl
  have h28 : (28 : UInt32).toNat = 28 := rfl
  simp only [List.flatMap_cons, List.flatMap_nil, h4, h28, hheader, hzero, bytesOf_store32,
    bytesOf_length, List.append_nil, List.append_assoc]
  rfl

/-! ## The two blocks of a job -/

/-- The seed of a block: H0, the index of the block, and lane 0. -/
theorem bytesOf_seed {seed : Bytes} {digest : List UInt8} (hseed : bytesOf seed 64 = digest)
    (index : UInt32) :
    bytesOf (store32 (store32 seed 64 index) 68 0) 72 = digest ++ le32 index.toNat ++ le32 0 := by
  have hlen : digest.length = 64 := by rw [← hseed, bytesOf_length]
  rw [store32_eq, store32_eq, show (68 : Nat) = 64 + (le32 index.toNat).length from rfl,
    writeList_append, List.append_assoc]
  refine List.ext_getElem ?_ fun i hi hi' => ?_
  · rw [bytesOf_length, List.length_append, hlen]
    rfl
  · rw [bytesOf_length] at hi
    rw [← List.getD_eq_getElem _ 0 hi', ← List.getD_eq_getElem _ 0 (by rwa [bytesOf_length]),
      bytesOf_getD hi, writeList_apply]
    by_cases hlow : i < 64
    · rw [if_neg (by omega), List.getD_append _ _ _ _ (by omega), ← hseed, bytesOf_getD hlow]
    · have hright := List.getD_append_right digest (le32 index.toNat ++ le32 0) 0 i (by omega)
      rw [if_pos ⟨by omega, by change i < 64 + 8; exact hi⟩, hright, hlen]
      rfl

variable {args : FirstBlocksArgs} {keys salt memory : Bytes} {item : WorkItem}

/-- Where the blocks of a job stand, as the kernel computes it. -/
def outputAt (args : FirstBlocksArgs) (job : UInt64) : Nat :=
  (job * (4 * args.segmentBlocks).toUInt64 * 1024).toNat

/-- The password of a job. -/
def passwordOf (args : FirstBlocksArgs) (keys : Bytes) (job : UInt64) : List UInt8 :=
  bytesOf (fun i => keys ((job * args.keyLength.toUInt64).toNat + i)) args.keyLength.toNat

/-- The two blocks of lane 0. -/
def jobBlocks (args : FirstBlocksArgs) (keys salt : Bytes) (job : UInt64) : List UInt8 :=
  let saltBytes := bytesOf salt args.saltLength.toNat
  firstBlock args.params (passwordOf args keys job) saltBytes 0 0 ++
    firstBlock args.params (passwordOf args keys job) saltBytes 1 0

theorem jobBlocks_length (job : UInt64) : (jobBlocks args keys salt job).length = 2048 := by
  unfold jobBlocks firstBlock
  rw [List.length_append, longHash_length, longHash_length]

theorem blocks_of_seed (seed : Bytes) {digest : List UInt8} (hseed : bytesOf seed 64 = digest)
    (out : Nat) (index : UInt32) :
    digestLong memory out 1024 (store32 (store32 seed 64 index) 68 0)
      ARGON2_PREHASH_SEED_LENGTH =
      writeList memory out (longHash 1024 (digest ++ le32 index.toNat ++ le32 0)) := by
  rw [digestLong_eq]
  exact congrArg (fun seed => writeList memory out (longHash 1024 seed)) (bytesOf_seed hseed index)

/-- The integers behind H0 leave it alone. -/
theorem bytesOf_store32_behind (seed : Bytes) {dst : Nat} (h : 64 ≤ dst) (value : UInt32) :
    bytesOf (store32 seed dst value) 64 = bytesOf seed 64 := by
  refine List.map_congr_left fun i hi => ?_
  have hi := List.mem_range.1 hi
  rw [store32_eq, writeList_apply, if_neg (by omega)]

/-- A work-item of the batch writes the two blocks of its job, and nothing else. -/
theorem kernel_eq (h : jobId args item < args.batchSize) :
    argon2FirstBlocksKernel args keys salt memory item =
      writeList memory (outputAt args (jobId args item))
        (jobBlocks args keys salt (jobId args item)) := by
  generalize hdigest : H0 args.params (passwordOf args keys (jobId args item))
    (bytesOf salt args.saltLength.toNat) = digest
  have hlen : digest.length = 64 := by rw [← hdigest, H0, Lib.Blake2b.hash_length]
  have hseed : bytesOf (writeList zeros 0 digest) 64 = digest := by
    have := bytesOf_scratch zeros digest
    rwa [hlen] at this
  have hagain : bytesOf (store32 (store32 (writeList zeros 0 digest) 64 0) 68 0) 64 = digest := by
    rw [bytesOf_store32_behind _ (by decide), bytesOf_store32_behind _ (by decide), hseed]
  have hblock : (longHash 1024 (digest ++ le32 0 ++ le32 0)).length = ARGON2_BLOCK_SIZE :=
    longHash_length _ _
  have hblocks : jobBlocks args keys salt (jobId args item) =
      longHash 1024 (digest ++ le32 0 ++ le32 0) ++ longHash 1024 (digest ++ le32 1 ++ le32 0) := by
    unfold jobBlocks firstBlock
    dsimp only
    rw [hdigest]
  unfold argon2FirstBlocksKernel ARGON2_PREHASH_DIGEST_LENGTH
  dsimp only
  rw [if_neg (UInt64.not_le.2 h), initialHash_eq]
  change digestLong (digestLong memory (outputAt args (jobId args item)) 1024 _ _)
    (outputAt args (jobId args item) + ARGON2_BLOCK_SIZE) 1024 _ _ = _
  unfold passwordOf at hdigest
  rw [hdigest, blocks_of_seed _ hseed, blocks_of_seed _ hagain, hblocks, ← writeList_append, hblock]
  rfl

end TreeMiner.Kernel
