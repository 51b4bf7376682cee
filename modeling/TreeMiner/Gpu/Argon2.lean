import TreeMiner.Gpu.Stream
import TreeMiner.Kernel.Oneshot

/-! The host and the kernels a batch runs on: `CpuArgon2Host`, and device code that computes
Argon2id. With them every request that passes its checks comes to an outcome. -/

namespace TreeMiner.Gpu

open Host Lib
open Kernel (Bytes)
open Kernel.Blake2b (bytesOf bytesOf_length)

/-! ## `CpuArgon2Host` -/

section

variable {blake2bVar : Nat → List (List UInt8) → List UInt8} {out password salt : List UInt8}
  {shape : Argon2Shape}

/-- `fill_first_blocks` of the CPU host. -/
def cpuFill (blake2bVar : Nat → List (List UInt8) → List UInt8) (out password salt : List UInt8)
    (shape : Argon2Shape) : Except (Failure String) (List UInt8) :=
  (Host.fillFirstBlocks blake2bVar out password salt shape).mapError .error

theorem cpuFill_eq (hb : IsBlake2b blake2bVar) (hout : out.length = slotBytes shape)
    (hlanes : shape.lanes ≠ 0) :
    cpuFill blake2bVar out password salt shape = .ok (firstBlocks shape password salt) := by
  unfold cpuFill
  rw [fillFirstBlocks_eq hb password salt hout hlanes]
  rfl

/-- A slot of another size is refused, and so is a shape without lanes. -/
theorem cpuFill_error (h : ¬ (out.length = slotBytes shape ∧ shape.lanes ≠ 0)) :
    cpuFill blake2bVar out password salt shape = .error (.error
      (if out.length ≠ slotBytes shape then
        s!"first-block slot is {out.length} bytes, want {slotBytes shape}"
      else "shape must have at least one lane")) := by
  unfold cpuFill Host.fillFirstBlocks
  dsimp only
  split_ifs with hsize hlanes
  · rfl
  · rfl
  · exact absurd ⟨not_not.1 hsize, hlanes⟩ h

/-- `CpuArgon2Host`, over a hash that is BLAKE2b. -/
def cpuHashHost (hb : IsBlake2b blake2bVar) : HashHost where
  toArgon2Host := cpuArgon2Host blake2bVar
  fillFirstBlocks := cpuFill blake2bVar
  filled out out' password salt shape hlen := by
    by_cases hfits : out.length = slotBytes shape ∧ shape.lanes ≠ 0
    · rw [cpuFill_eq hb hfits.1 hfits.2, cpuFill_eq hb (hlen.symm.trans hfits.1) hfits.2]
    · rw [cpuFill_error hfits, cpuFill_error (by rwa [← hlen]), hlen]
  size := by
    intro out password salt shape bytes h
    by_cases hfits : out.length = slotBytes shape ∧ shape.lanes ≠ 0
    · rw [cpuFill_eq hb hfits.1 hfits.2] at h
      cases h
      rw [firstBlocks_length, hfits.1]
    · rw [cpuFill_error hfits] at h
      cases h

end

/-- The CPU host over BLAKE2b itself. -/
def blake2bHost : HashHost :=
  @cpuHashHost (fun outLen parts => Blake2b.hash outLen parts.flatten) fun _ _ _ _ => rfl

/-! ## Kernels that compute Argon2id -/

/-- Device memory as the words its kernels see. -/
def wordsOf (bytes : Bytes) : Kernel.Memory := fun a => Kernel.load64 fun k => bytes (8 * a + k)

/-- The words of device memory as its bytes, little-endian. -/
def wordBytes (memory : Kernel.Memory) : Bytes := fun i =>
  (memory (i / 8) >>> UInt64.ofNat (8 * (i % 8))).toUInt8

def argon2Kernels : Kernels where
  firstBlocks shape key salt i := (firstBlocks shape key salt).getD i 0
  oneshot segmentBlocks first i :=
    let words := wordsOf fun k => first.getD k 0
    let block := Argon2.blocks segmentBlocks.toNat (Kernel.blockAt words 0)
      (Kernel.blockAt words Kernel.QWORDS_IN_BLOCK) (i / Host.ARGON2_BLOCK_SIZE)
    wordBytes (fun word => block (Fin.ofNat 128 word)) (i % Host.ARGON2_BLOCK_SIZE)

/-! ## Every request comes to an outcome -/

section

variable {blake2bVar : Nat → List (List UInt8) → List UInt8} (hb : IsBlake2b blake2bVar)
  {kernels : Kernels} {salt : List UInt8} {shape : Argon2Shape} {passwords : List String}

include hb

theorem fillSlots_cpu (hlanes : shape.lanes ≠ 0) {out : List UInt8}
    (hlen : out.length = passwords.length * slotBytes shape) :
    ∃ bytes, fillSlots (cpuHashHost hb) salt shape passwords out = .ok bytes := by
  induction passwords generalizing out with
  | nil => exact ⟨out, rfl⟩
  | cons password passwords ih =>
    rw [List.length_cons, Nat.succ_mul] at hlen
    have hslot : (out.take (slotBytes shape)).length = slotBytes shape := by
      rw [List.length_take]
      omega
    obtain ⟨rest, hrest⟩ := @ih (out.drop (slotBytes shape)) (by rw [List.length_drop]; omega)
    have hfill : (cpuHashHost hb).fillFirstBlocks (out.take (slotBytes shape)) (keyBytes password)
        salt shape = .ok (firstBlocks shape (keyBytes password) salt) :=
      cpuFill_eq hb hslot hlanes
    refine ⟨firstBlocks shape (keyBytes password) salt ++ rest, ?_⟩
    unfold fillSlots
    rw [hfill, hrest]
    rfl

/-- Blocks of the right size are reduced to digests without fail. -/
theorem finalizeBlocks_cpu {request : BatchRequest} {blocks : List UInt8} {keep : Bool}
    (slices : List Slice) (hslices : ∀ slice ∈ slices,
      (slice.read blocks).length = Host.ARGON2_BLOCK_SIZE) {k : Nat}
    (hcount : k + slices.length ≤ request.passwords.length) (digest : Digest) (out : Finalized) :
    ∃ finalized, finalizeBlocks request (cpuArgon2Host blake2bVar) blocks keep (slices.zipIdx k)
      digest out = .ok finalized := by
  induction slices generalizing k digest out with
  | nil => exact ⟨out, rfl⟩
  | cons slice slices ih =>
    rw [List.length_cons] at hcount
    obtain ⟨d, hd, -⟩ := cpuArgon2Host_finalize hb (hslices slice List.mem_cons_self) digest
    rw [List.zipIdx_cons]
    unfold finalizeBlocks
    rw [hd]
    dsimp only
    rw [List.getElem?_eq_getElem (show k < request.passwords.length by omega)]
    exact ih (fun s hs => hslices s (List.mem_cons_of_mem _ hs)) (by omega) _ _

theorem finalizeBatch_cpu {request : BatchRequest} {blocks : List UInt8}
    (hlen : blocks.length = request.passwords.length * Host.ARGON2_BLOCK_SIZE) :
    ∃ finalized, finalizeBatch request (cpuArgon2Host blake2bVar) blocks 1 = .ok finalized := by
  have hblock : 0 < Host.ARGON2_BLOCK_SIZE := by decide
  have hslices : ∀ slice ∈ (Slice.whole blocks).chunks Host.ARGON2_BLOCK_SIZE,
      (slice.read blocks).length = Host.ARGON2_BLOCK_SIZE := by
    intro slice hmem
    unfold Slice.whole at hmem
    rw [hlen] at hmem
    obtain ⟨hsize, hend⟩ := Slice.length_of_mem_chunks hblock hmem
    unfold Slice.read
    rw [List.length_take, List.length_drop]
    omega
  have hcount : ((Slice.whole blocks).chunks Host.ARGON2_BLOCK_SIZE).length =
      request.passwords.length := by
    unfold Slice.whole
    rw [hlen, Slice.chunks_length hblock]
  obtain ⟨finalized, hok⟩ := @finalizeBlocks_cpu blake2bVar hb request blocks
    (request.collectDigests || request.passwords.length == 1) _ hslices 0
    (by rw [Nat.zero_add, hcount]) (Vector.replicate _ 0) .none
  refine ⟨collect request finalized request.passwords.length, ?_⟩
  unfold finalizeBatch
  dsimp only
  rw [if_neg (not_not.2 hlen)]
  change (finalizeBlocks request (cpuArgon2Host blake2bVar) blocks _ _ _ _).map _ = _
  rw [hok]
  rfl

/-- Over this host a request comes to an outcome, whatever the kernels compute, if it passes the
checks and the device implements its shape. -/
theorem hashBatch_cpu {request : HashRequest} (hsalt : checkRequest request = .ok salt)
    (hdevice : request.gpuFirstBlocks = true → (deviceKeyLength request.passwords.length
      request.passwords salt (.forDifficulty request.difficulty)).isSome) :
    ∃ outcome, hashBatch kernels (cpuHashHost hb) request = .ok outcome := by
  have hfirst : ∃ first, firstBytes kernels (cpuHashHost hb) request salt
      (.forDifficulty request.difficulty) = .ok first := by
    unfold firstBytes
    dsimp only
    split_ifs with hgpu
    · obtain ⟨keyLength, hlength⟩ := Option.isSome_iff_exists.1 (hdevice hgpu)
      rw [hlength]
      exact ⟨_, rfl⟩
    · have hslot : slotBytes (.forDifficulty request.difficulty) = inputBytes := rfl
      have hlen : (List.replicate (request.passwords.length * inputBytes) (0 : UInt8)).length =
          request.passwords.length * slotBytes (.forDifficulty request.difficulty) := by
        rw [List.length_replicate, hslot]
      obtain ⟨bytes, hbytes⟩ := @fillSlots_cpu blake2bVar hb salt
        (.forDifficulty request.difficulty) request.passwords
        (show (1 : UInt32) ≠ 0 by decide) _ hlen
      unfold fillFirstBlocksBatch
      dsimp only
      rw [if_neg (not_not.2 hlen), if_neg (by rw [hslot]; decide), hbytes]
      exact ⟨_, rfl⟩
  obtain ⟨first, hfirst⟩ := hfirst
  obtain ⟨finalized, hok⟩ := @finalizeBatch_cpu blake2bVar hb request.toBatchRequest
    (blocksOf kernels request first) (bytesOf_length _ _)
  exact ⟨.of request finalized, (hashBatch_ok_iff hsalt hfirst _).2 ⟨finalized, hok, rfl⟩⟩

end

end TreeMiner.Gpu
