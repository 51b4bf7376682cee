import TreeMiner.Host.Argon2
import TreeMiner.Lib.Slices
import TreeMiner.Miner.Capture

/-! `finalize_batch` of the GPU backend: the last blocks of a batch become digests and
matches, on the calling thread or on a thread for each range of jobs, and it makes no
difference which. -/

namespace TreeMiner.Host

open Lib

/-- A call ends with an error, or its thread panics. -/
inductive Failure (ε : Type)
  | error (e : ε)
  | panic
deriving DecidableEq, Repr

/-- The variants of `GpuError` a finalize pass ends with. -/
inductive GpuError
  | invalid (message : String)
  | host (message : String)
deriving DecidableEq, Repr

/-- The half of `Argon2Host` that reduces a last block to a digest. The digest is all the
buffer holds afterwards, so what it held before is not in it. -/
structure Argon2Host where
  finalize : List UInt8 → Digest → Except (Failure String) Digest
  whole : ∀ lastBlock out out', finalize lastBlock out = finalize lastBlock out'

/-- What a finalize pass reads of its request. -/
structure BatchRequest where
  passwords : List String
  targetPattern : String
  allowXuni : Bool
  collectDigests : Bool

structure GpuMatch where
  key : String
  hash : String
  matchedPattern : String
  attemptIndex : Nat
  isSuperblock : Bool
deriving DecidableEq, Repr

structure Finalized where
  matches_ : List GpuMatch
  digests : List String
  hash : Option String
deriving DecidableEq, Repr

def Finalized.none : Finalized := ⟨[], [], Option.none⟩

def appendMatches (request : BatchRequest) (matches_ : List GpuMatch) (key hash : String)
    (attemptIndex : Nat) : List GpuMatch :=
  let matches_ :=
    if !request.targetPattern.isEmpty && containsText hash request.targetPattern then
      matches_ ++ [⟨key, hash, request.targetPattern, attemptIndex, isSuperblockHash hash⟩]
    else matches_
  if request.allowXuni && hasXuniMatch hash then
    matches_ ++ [⟨key, hash, "XUNI", attemptIndex, false⟩]
  else matches_

section

variable (request : BatchRequest) (host : Argon2Host) (blocks : List UInt8)

/-- The loop of `finalize_range`, over blocks with the numbers of their jobs and with the one
digest buffer of the range. -/
def finalizeBlocks (keepDigests : Bool) :
    List (Slice × Nat) → Digest → Finalized → Except (Failure GpuError) Finalized
  | [], _, out => .ok out
  | (block, index) :: rest, digest, out =>
    match host.finalize (block.read blocks) digest with
    | .error .panic => .error .panic
    | .error (.error message) => .error (.error (.host message))
    | .ok digest =>
      let hash := digest.text
      match request.passwords[index]? with
      | none => .error .panic
      | some key =>
        let out := { out with matches_ := appendMatches request out.matches_ key hash index }
        finalizeBlocks keepDigests rest digest
          (if keepDigests then { out with digests := out.digests ++ [hash] } else out)

def finalizeRange (chunk : Slice) (firstJob : Nat) (keepDigests : Bool) (out : Finalized) :
    Except (Failure GpuError) Finalized :=
  finalizeBlocks request host blocks keepDigests
    ((chunk.chunks ARGON2_BLOCK_SIZE).zipIdx firstJob) (Vector.replicate _ 0) out

/-- Drops the digests nobody asked for, and lifts the digest of a single job out. -/
def collect (finalized : Finalized) (attempts : Nat) : Finalized :=
  let finalized :=
    if attempts = 1 then { finalized with hash := finalized.digests.head? } else finalized
  if request.collectDigests then finalized else { finalized with digests := [] }

/-- What joining a finalize worker makes of its end. -/
def joinFinalize : Except (Failure GpuError) Finalized → Except (Failure GpuError) Finalized
  | .error .panic => .error (.error (.host "a finalize worker panicked"))
  | result => result

/-- The parts of the workers one behind the other, up to the first that failed. -/
def concatParts : List (Except (Failure GpuError) Finalized) → Finalized →
    Except (Failure GpuError) Finalized
  | [], finalized => .ok finalized
  | .error e :: _, _ => .error e
  | .ok part :: parts, finalized =>
    concatParts parts { finalized with
      matches_ := finalized.matches_ ++ part.matches_
      digests := finalized.digests ++ part.digests }

def finalizeBatch (workerCount : Nat) : Except (Failure GpuError) Finalized :=
  let attempts := request.passwords.length
  let want := attempts * ARGON2_BLOCK_SIZE
  if blocks.length ≠ want then
    .error (.error (.invalid s!"output buffer is {blocks.length} bytes, want {want}"))
  else
    -- a one-job batch reports its digest whether or not the caller asked for all of them
    let keepDigests := request.collectDigests || attempts == 1
    if workerCount ≤ 1 || attempts ≤ 1 then
      (finalizeRange request host blocks (.whole blocks) 0 keepDigests .none).map
        (collect request · attempts)
    else
      let chunkJobs := max ((attempts + workerCount - 1) / workerCount) 1
      let parts := ((Slice.whole blocks).chunks (chunkJobs * ARGON2_BLOCK_SIZE)).zipIdx.map
        fun p => joinFinalize
          (finalizeRange request host blocks p.1 (p.2 * chunkJobs) keepDigests .none)
      (concatParts parts .none).map (collect request · attempts)

end

/-! ## A run of jobs is its parts -/

/-- What is found later stands behind what was found before. -/
def Finalized.append (a b : Finalized) : Finalized :=
  { a with matches_ := a.matches_ ++ b.matches_, digests := a.digests ++ b.digests }

theorem Finalized.append_assoc (a b c : Finalized) :
    a.append (b.append c) = (a.append b).append c := by
  unfold Finalized.append
  rw [List.append_assoc, List.append_assoc]

theorem Finalized.append_none (a : Finalized) : a.append .none = a := by
  unfold Finalized.append Finalized.none
  rw [List.append_nil, List.append_nil]

variable {request : BatchRequest} {host : Argon2Host} {blocks : List UInt8} {keep : Bool}

theorem appendMatches_append (ms ms' : List GpuMatch) (key hash : String) (index : Nat) :
    appendMatches request (ms ++ ms') key hash index =
      ms ++ appendMatches request ms' key hash index := by
  unfold appendMatches
  dsimp only
  split_ifs with htarget hxuni
  · rw [List.append_assoc, List.append_assoc, List.append_assoc]
  · rw [List.append_assoc]
  · rw [List.append_assoc]
  · rfl

/-- What stands in the digest buffer at first makes no difference. -/
theorem finalizeBlocks_buffer (jobs : List (Slice × Nat)) (digest digest' : Digest)
    (out : Finalized) : finalizeBlocks request host blocks keep jobs digest out =
      finalizeBlocks request host blocks keep jobs digest' out := by
  cases jobs with
  | nil => rfl
  | cons job jobs =>
    obtain ⟨block, index⟩ := job
    unfold finalizeBlocks
    rw [host.whole _ digest digest']

/-- What was found before makes no difference to what is found. -/
theorem finalizeBlocks_append (jobs : List (Slice × Nat)) (digest : Digest) (a b : Finalized) :
    finalizeBlocks request host blocks keep jobs digest (a.append b) =
      (finalizeBlocks request host blocks keep jobs digest b).map a.append := by
  induction jobs generalizing digest b with
  | nil => rfl
  | cons job jobs ih =>
    obtain ⟨block, index⟩ := job
    unfold finalizeBlocks
    cases host.finalize (block.read blocks) digest with
    | error failure => cases failure <;> rfl
    | ok d =>
      dsimp only
      cases request.passwords[index]? with
      | none => rfl
      | some key =>
        dsimp only
        rw [← ih]
        congr 1
        unfold Finalized.append
        dsimp only
        rw [appendMatches_append]
        split_ifs
        · rw [List.append_assoc]
        · rfl

/-- Two runs of jobs, one behind the other. -/
theorem finalizeBlocks_concat (jobs jobs' : List (Slice × Nat)) (digest digest' : Digest)
    (out : Finalized) : finalizeBlocks request host blocks keep (jobs ++ jobs') digest out =
      (finalizeBlocks request host blocks keep jobs digest out).bind
        (finalizeBlocks request host blocks keep jobs' digest') := by
  induction jobs generalizing digest out with
  | nil => exact finalizeBlocks_buffer jobs' digest digest' out
  | cons job jobs ih =>
    obtain ⟨block, index⟩ := job
    rw [List.cons_append]
    unfold finalizeBlocks
    cases host.finalize (block.read blocks) digest with
    | error failure => cases failure <;> rfl
    | ok d =>
      dsimp only
      cases request.passwords[index]? with
      | none => rfl
      | some key => exact ih d _

/-- The parts of a run, found apart and put together, are the run. -/
theorem concatParts_map (parts : List (List (Slice × Nat))) (digest : Digest)
    (finalized : Finalized) :
    concatParts (parts.map fun jobs =>
      joinFinalize (finalizeBlocks request host blocks keep jobs digest .none)) finalized =
      joinFinalize (finalizeBlocks request host blocks keep parts.flatten digest finalized) := by
  induction parts generalizing finalized with
  | nil => rfl
  | cons jobs parts ih =>
    have hpart := @finalizeBlocks_append request host blocks keep jobs digest finalized .none
    rw [Finalized.append_none] at hpart
    rw [List.map_cons, List.flatten_cons, finalizeBlocks_concat jobs parts.flatten digest digest,
      hpart]
    cases finalizeBlocks request host blocks keep jobs digest .none with
    | error failure => cases failure <;> rfl
    | ok part => exact ih (finalized.append part)

theorem joinFinalize_map (f : Finalized → Finalized)
    (result : Except (Failure GpuError) Finalized) :
    joinFinalize (result.map f) = (joinFinalize result).map f := by
  cases result with
  | ok finalized => rfl
  | error failure => cases failure <;> rfl

/-- On more threads than one a batch ends as it does on the calling thread; only a panic of
the host is an error there. -/
theorem finalizeBatch_parallel {workerCount : Nat} (hworkers : 1 < workerCount)
    (hattempts : 1 < request.passwords.length) :
    finalizeBatch request host blocks workerCount =
      joinFinalize (finalizeBatch request host blocks 1) := by
  have hparallel : (decide (workerCount ≤ 1) || decide (request.passwords.length ≤ 1)) = false := by
    rw [decide_eq_false (not_le.2 hworkers), decide_eq_false (not_le.2 hattempts)]
    rfl
  have hserial : (decide (1 ≤ 1) || decide (request.passwords.length ≤ 1)) = true := rfl
  unfold finalizeBatch
  dsimp only
  rw [hparallel, hserial, if_neg Bool.false_ne_true, if_pos rfl]
  split_ifs with hlen
  · rfl
  · generalize hc : max ((request.passwords.length + workerCount - 1) / workerCount) 1 = c
    have hchunks := Slice.chunks_chunks (show 0 < ARGON2_BLOCK_SIZE by decide)
      (show 0 < c by omega) (.whole blocks) 0
    rw [Nat.zero_mul, List.flatMap_def] at hchunks
    rw [joinFinalize_map]
    refine congrArg (Except.map _) ?_
    unfold finalizeRange
    rw [← hchunks, ← concatParts_map, List.map_map]
    rfl

/-- Matches, digests and the hash of a single job do not depend on the number of threads, and
a batch fails on all of them or on none. -/
theorem finalizeBatch_ok_iff (workerCount : Nat) (finalized : Finalized) :
    finalizeBatch request host blocks workerCount = .ok finalized ↔
      finalizeBatch request host blocks 1 = .ok finalized := by
  by_cases hmany : 1 < workerCount ∧ 1 < request.passwords.length
  · rw [finalizeBatch_parallel hmany.1 hmany.2]
    cases finalizeBatch request host blocks 1 with
    | ok finalized => rfl
    | error failure => cases failure <;> exact iff_of_false nofun nofun
  · have hserial : (decide (workerCount ≤ 1) || decide (request.passwords.length ≤ 1)) = true := by
      simp only [Bool.or_eq_true, decide_eq_true_eq]
      omega
    unfold finalizeBatch
    dsimp only
    rw [hserial]
    rfl

/-! ## The host of the miner -/

/-- `CpuArgon2Host` as a batch uses it. -/
def cpuArgon2Host (blake2bVar : Nat → List (List UInt8) → List UInt8) : Argon2Host where
  finalize lastBlock _ :=
    match finalize blake2bVar lastBlock DEFAULT_HASH_LENGTH with
    | .ok bytes => .ok (Vector.ofFn fun i => bytes.getD i 0)
    | .error message => .error (.error message)
  whole _ _ _ := rfl

/-- The digest of a last block is H' of it. -/
theorem cpuArgon2Host_finalize {blake2bVar : Nat → List (List UInt8) → List UInt8}
    (hb : IsBlake2b blake2bVar) {lastBlock : List UInt8} (h : lastBlock.length = ARGON2_BLOCK_SIZE)
    (out : Digest) : ∃ digest, (cpuArgon2Host blake2bVar).finalize lastBlock out = .ok digest ∧
      digest.toList = Argon2.longHash 64 lastBlock := by
  have hlong : digestLong blake2bVar DEFAULT_HASH_LENGTH lastBlock = Argon2.longHash 64 lastBlock :=
    digestLong_eq hb lastBlock (by decide)
  have hguard : (lastBlock.isEmpty || lastBlock.length % ARGON2_BLOCK_SIZE != 0) = false := by
    rw [h]
    cases lastBlock with
    | nil => cases h
    | cons b bs => rfl
  refine ⟨Vector.ofFn fun i => (Argon2.longHash 64 lastBlock).getD i 0, ?_, ?_⟩
  · unfold cpuArgon2Host finalize
    dsimp only
    rw [hguard, if_neg Bool.false_ne_true, if_pos h, hlong]
  · refine List.ext_getElem ?_ fun i hi hi' => ?_
    · rw [Vector.length_toList, Argon2.longHash_length]
      rfl
    · rw [← List.getD_eq_getElem _ 0 hi']
      simp

/-! ## The hits of a GPU batch -/

/-- What the backend is asked for a batch of the miner. -/
def gpuRequest (b : GpuBatch) (collectDigests : Bool) : BatchRequest where
  passwords := b.attempts.map fun p => p.1.key
  targetPattern := b.targetPattern
  allowXuni := b.allowXuni
  collectDigests

/-- A hit as the backend reports it. -/
def reported (hit : HashMatch) : GpuMatch :=
  ⟨hit.key, hit.hash, hit.matchedPattern, hit.attemptIndex, hit.isSuperblock⟩

theorem appendMatches_reported (b : GpuBatch) (collectDigests : Bool) (ms : List GpuMatch)
    (a : Attempt) (hash : String) (index : Nat) :
    appendMatches (gpuRequest b collectDigests) ms a.key hash index =
      ms ++ (b.appendMatches a hash index).map reported := by
  unfold appendMatches GpuBatch.appendMatches GpuBatch.hitsTarget GpuBatch.hitsXuni gpuRequest
  dsimp only
  split_ifs <;> simp [reported]

/-- Over the blocks its digests come from, the loop finds the hits of a batch. -/
theorem finalizeBlocks_reported {b : GpuBatch} {collectDigests : Bool} {slices : List Slice}
    {rest : List (Attempt × Digest)} (hdigests : List.Forall₂
      (fun slice p => ∀ out, host.finalize (slice.read blocks) out = .ok p.2) slices rest)
    {k : Nat} (hrest : b.attempts.drop k = rest) (digest : Digest) (out : Finalized) :
    ∃ digests, finalizeBlocks (gpuRequest b collectDigests) host blocks keep (slices.zipIdx k)
      digest out = .ok { out with
        matches_ := out.matches_ ++ (b.finalizeRange k rest).map reported
        digests } := by
  induction hdigests generalizing k digest out with
  | nil =>
    refine ⟨out.digests, ?_⟩
    simp [finalizeBlocks, GpuBatch.finalizeRange]
  | @cons slice p slices rest hdigest hdigests ih =>
    obtain ⟨a, d⟩ := p
    have hkey : (gpuRequest b collectDigests).passwords[k]? = some a.key := by
      have hget : b.attempts[k]? = some (a, d) := by
        have := congrArg (·[0]?) hrest
        rwa [List.getElem?_drop] at this
      unfold gpuRequest
      dsimp only
      rw [List.getElem?_map, hget]
      rfl
    have hnext : b.attempts.drop (k + 1) = rest := by
      rw [← List.tail_drop, hrest]
      rfl
    rw [List.zipIdx_cons]
    unfold finalizeBlocks
    rw [hdigest]
    dsimp only
    rw [hkey]
    dsimp only
    obtain ⟨digests, hloop⟩ := ih hnext d
      (if keep then { out with
        matches_ := appendMatches (gpuRequest b collectDigests) out.matches_ a.key d.text k
        digests := out.digests ++ [d.text] }
      else { out with
        matches_ := appendMatches (gpuRequest b collectDigests) out.matches_ a.key d.text k })
    refine ⟨digests, hloop.trans ?_⟩
    rw [GpuBatch.finalizeRange, List.map_append, ← List.append_assoc, ← appendMatches_reported]
    split_ifs <;> rfl

/-- On any number of threads a batch reports the hits the miner works with. -/
theorem finalizeBatch_reported {b : GpuBatch} {collectDigests : Bool}
    (hlen : blocks.length = b.attempts.length * ARGON2_BLOCK_SIZE)
    (hdigests : List.Forall₂ (fun slice p => ∀ out, host.finalize (slice.read blocks) out = .ok p.2)
      ((Slice.whole blocks).chunks ARGON2_BLOCK_SIZE) b.attempts) (workerCount : Nat) :
    ∃ finalized,
      finalizeBatch (gpuRequest b collectDigests) host blocks workerCount = .ok finalized ∧
      finalized.matches_ = (b.finalizeRange 0 b.attempts).map reported := by
  have hcount : (gpuRequest b collectDigests).passwords.length = b.attempts.length :=
    List.length_map _
  obtain ⟨digests, hloop⟩ := @finalizeBlocks_reported host blocks
    ((gpuRequest b collectDigests).collectDigests || b.attempts.length == 1) b collectDigests _ _
    hdigests 0 (List.drop_zero ..) (Vector.replicate _ 0) .none
  have hcollect : ∀ finalized attempts, (collect (gpuRequest b collectDigests) finalized
      attempts).matches_ = finalized.matches_ := by
    intro finalized attempts
    unfold collect
    dsimp only
    split_ifs <;> rfl
  have hserial := congrArg (Except.map (collect (gpuRequest b collectDigests) · b.attempts.length))
    hloop
  refine ⟨_, (finalizeBatch_ok_iff workerCount _).2 (Eq.trans ?_ hserial), hcollect ..⟩
  unfold finalizeBatch
  dsimp only
  rw [hcount, if_neg (not_not.2 hlen)]
  rfl

end TreeMiner.Host
