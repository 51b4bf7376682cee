import TreeMiner.Host.Finalize
import TreeMiner.Lib.WorkQueue

/-! `fill_first_blocks_batch` of the CPU host: one loop over the slots of a batch, or workers
that take chunks of slots from a queue, and the same bytes either way. -/

namespace TreeMiner.Host

open Lib
open WorkQueue (Tasks)

/-- `first_block_chunk_size`: an even split, rounded up. -/
def firstBlockChunkSize (attempts workerCount : Nat) : Nat :=
  if attempts = 0 ∨ workerCount = 0 then 0 else (attempts + workerCount - 1) / workerCount

/-- `first_block_selected_chunk_size`: a dynamic chunk size only counts where there is another
worker to steal from. -/
def firstBlockSelectedChunkSize (attempts workerCount dynamicChunkSize : Nat) : Nat :=
  if attempts = 0 ∨ workerCount = 0 then 0
  else if 0 < dynamicChunkSize ∧ 1 < workerCount then min attempts dynamicChunkSize
  else firstBlockChunkSize attempts workerCount

section

variable (blake2bVar : Nat → List (List UInt8) → List UInt8) (salt : List UInt8)
  (shape : Argon2Shape)

/-- `fill_first_blocks` on a slot of the buffer. -/
def fillSlot (password : String) (slotOut : List UInt8) : Except (Failure String) (List UInt8) :=
  match fillFirstBlocks blake2bVar slotOut password.toUTF8.toList salt shape with
  | .ok bytes => .ok bytes
  | .error message => .error (.error message)

/-- The slots as the loop has them, each with its password. -/
def zipped : Tasks (Slice × String) Slice (List UInt8) (Failure String) where
  key := Prod.fst
  run task := fillSlot blake2bVar salt shape task.2

/-- The slots as the workers have them, each with the number of its password. -/
def numbered (passwords : List String) :
    Tasks (Slice × Nat) Slice (List UInt8) (Failure String) where
  key := Prod.fst
  run task slotOut :=
    match passwords[task.2]? with
    | none => .error .panic
    | some password => fillSlot blake2bVar salt shape password slotOut

/-- The queue of the workers: chunks of slots, with the number of each slot's job. -/
def chunkQueue (out : List UInt8) (chunkJobs : Nat) : List (List (Slice × Nat)) :=
  ((Slice.whole out).chunks (chunkJobs * slotBytes shape)).zipIdx.map fun p =>
    (p.1.chunks (slotBytes shape)).zipIdx (p.2 * chunkJobs)

/-- The buffer, out of what stands in its slots. -/
def gather (out : List UInt8) (cells : Slice → List UInt8) : List UInt8 :=
  ((Slice.whole out).chunks (slotBytes shape)).flatMap cells

/-- What joining a first-block worker makes of its failure. -/
def joinFailure : Failure String → Failure String
  | .panic => .error "a first-block worker panicked"
  | .error message => .error message

/-- The results `fill_first_blocks_batch` may return, with the bytes it leaves: which worker
takes which chunk, and when, is open. -/
def FillsBatch (workerCount dynamicChunkSize : Nat) (out : List UInt8) (passwords : List String)
    (result : Except (Failure String) (List UInt8)) : Prop :=
  let slot := slotBytes shape
  let attempts := passwords.length
  let want := attempts * slot
  if out.length ≠ want then
    result = .error (.error s!"first-block buffer is {out.length} bytes, want {want}")
  else if attempts = 0 then result = .ok out
  else if workerCount ≤ 1 then
    -- `chunks_mut` panics on a size of zero
    result = if slot = 0 then .error .panic
      else (WorkQueue.serial (zipped blake2bVar salt shape)
        (((Slice.whole out).chunks slot).zip passwords) (·.read out)).map (gather shape out)
  else
    let chunkJobs := max (firstBlockSelectedChunkSize attempts workerCount dynamicChunkSize) 1
    if chunkJobs * slot = 0 then result = .error .panic
    else ∃ s, WorkQueue.Reachable (numbered blake2bVar salt shape passwords)
        (WorkQueue.start (chunkQueue shape out chunkJobs) workerCount (·.read out)) s ∧ s.Final ∧
      result = match s.failure with
        | some failure => .error (joinFailure failure)
        | none => .ok (gather shape out s.cells)

end

/-! ## Passwords by number -/

variable {blake2bVar : Nat → List (List UInt8) → List UInt8} {salt : List UInt8}
  {shape : Argon2Shape} {passwords : List String} {out : List UInt8}

/-- Zipped with the passwords or numbered, the slots are filled the same. -/
theorem serial_numbered (slices : List Slice) (k : Nat) (h : slices.length + k = passwords.length)
    (cells : Slice → List UInt8) :
    WorkQueue.serial (numbered blake2bVar salt shape passwords) (slices.zipIdx k) cells =
      WorkQueue.serial (zipped blake2bVar salt shape) (slices.zip (passwords.drop k)) cells := by
  induction slices generalizing k cells with
  | nil => rfl
  | cons slice slices ih =>
    rw [List.length_cons] at h
    have hk : k < passwords.length := by omega
    have hrun : (numbered blake2bVar salt shape passwords).run (slice, k) =
        fillSlot blake2bVar salt shape passwords[k] := by
      funext slotOut
      change (match passwords[k]? with
        | none => Except.error Failure.panic
        | some password => fillSlot blake2bVar salt shape password slotOut) = _
      rw [List.getElem?_eq_getElem hk]
    rw [List.zipIdx_cons, List.drop_eq_getElem_cons hk, List.zip_cons_cons]
    cases hfill : fillSlot blake2bVar salt shape passwords[k] (cells slice) with
    | error e =>
      rw [WorkQueue.serial_cons_error ((congrFun hrun _).trans hfill),
        WorkQueue.serial_cons_error hfill]
    | ok v =>
      rw [WorkQueue.serial_cons_ok ((congrFun hrun _).trans hfill), WorkQueue.serial_cons_ok hfill]
      exact ih (k + 1) (by omega) _

/-! ## Slots -/

theorem read_length {s : Slice} (h : s.start + s.length ≤ out.length) :
    (s.read out).length = s.length := by
  unfold Slice.read
  rw [List.length_take, List.length_drop]
  omega

/-- A slot of a shape with a lane is filled without fail. -/
theorem fillSlot_ok (hslot : slotBytes shape ≠ 0) (password : String) {slotOut : List UInt8}
    (hlen : slotOut.length = slotBytes shape) :
    ∃ bytes, fillSlot blake2bVar salt shape password slotOut = .ok bytes := by
  have hlanes : shape.lanes ≠ 0 := by
    intro h
    refine hslot ?_
    unfold slotBytes
    rw [h]
    rfl
  unfold fillSlot fillFirstBlocks
  dsimp only
  rw [if_neg (not_not.2 hlen), if_neg hlanes]
  exact ⟨_, rfl⟩

section

variable (hslot : slotBytes shape ≠ 0) (hlen : out.length = passwords.length * slotBytes shape)

include hslot hlen

theorem slots_length : ((Slice.whole out).chunks (slotBytes shape)).length = passwords.length := by
  unfold Slice.whole
  rw [hlen, Slice.chunks_length (Nat.pos_of_ne_zero hslot)]

/-- Every slot is as long as it must be, and has a password. -/
theorem slot_runs {task : Slice × Nat}
    (h : task ∈ ((Slice.whole out).chunks (slotBytes shape)).zipIdx) :
    ∃ bytes, (numbered blake2bVar salt shape passwords).run task (task.1.read out) = .ok bytes := by
  obtain ⟨slice, job⟩ := task
  obtain ⟨-, hjob, hslice⟩ := List.mem_zipIdx h
  rw [slots_length hslot hlen, Nat.zero_add] at hjob
  have hmem : slice ∈ Slice.chunks (slotBytes shape) ⟨0, passwords.length * slotBytes shape⟩ := by
    rw [hslice, ← hlen]
    exact List.getElem_mem _
  obtain ⟨hsize, hend⟩ := Slice.length_of_mem_chunks (Nat.pos_of_ne_zero hslot) hmem
  have hread : (slice.read out).length = slotBytes shape := by
    rw [read_length (by rw [hsize, hlen, ← Nat.zero_add (passwords.length * _)]; exact hend), hsize]
  obtain ⟨bytes, hbytes⟩ := @fillSlot_ok blake2bVar salt shape hslot passwords[job] _ hread
  refine ⟨bytes, ?_⟩
  rw [← hbytes]
  unfold numbered
  dsimp only
  rw [List.getElem?_eq_getElem hjob]

end

theorem chunkQueue_flatten (hslot : slotBytes shape ≠ 0) (out : List UInt8) {chunkJobs : Nat}
    (hchunk : 0 < chunkJobs) : (chunkQueue shape out chunkJobs).flatten =
      ((Slice.whole out).chunks (slotBytes shape)).zipIdx := by
  unfold chunkQueue
  rw [← List.flatMap_def, Slice.chunks_chunks (Nat.pos_of_ne_zero hslot) hchunk, Nat.zero_mul]

theorem slot_keys (slices : List Slice) (h : slices.Nodup) :
    (slices.zipIdx.map (numbered blake2bVar salt shape passwords).key).Nodup := by
  unfold numbered
  rwa [List.zipIdx_map_fst]

/-! ## The workers fill what the loop fills -/

/-- Every end the workers can come to is that of the loop, and they come to one. -/
theorem workers_fill (hslot : slotBytes shape ≠ 0)
    (hlen : out.length = passwords.length * slotBytes shape) {workerCount chunkJobs : Nat}
    (hworkers : 0 < workerCount) (hchunk : 0 < chunkJobs)
    (result : Except (Failure String) (List UInt8)) :
    (∃ s, WorkQueue.Reachable (numbered blake2bVar salt shape passwords)
        (WorkQueue.start (chunkQueue shape out chunkJobs) workerCount (·.read out)) s ∧ s.Final ∧
      result = match s.failure with
        | some failure => .error (joinFailure failure)
        | none => .ok (gather shape out s.cells)) ↔
      result = (WorkQueue.serial (zipped blake2bVar salt shape)
        (((Slice.whole out).chunks (slotBytes shape)).zip passwords) (·.read out)).map
          (gather shape out) := by
  have hkeys := @slot_keys blake2bVar salt shape passwords _
    (Slice.chunks_nodup (slotBytes shape) (.whole out))
  obtain ⟨cells, hserial⟩ := @WorkQueue.serial_succeeds _ _ _ _ _ _
    (fun slice => slice.read out) _ hkeys fun task htask => slot_runs hslot hlen htask
  have hzipped := @serial_numbered blake2bVar salt shape passwords
    ((Slice.whole out).chunks (slotBytes shape)) 0 (slots_length hslot hlen) (·.read out)
  rw [← chunkQueue_flatten hslot out hchunk] at hkeys hserial hzipped
  rw [List.drop_zero] at hzipped
  -- every way through the queue ends with what the loop leaves
  have hend : ∀ s, WorkQueue.Reachable (numbered blake2bVar salt shape passwords)
      (WorkQueue.start (chunkQueue shape out chunkJobs) workerCount (·.read out)) s → s.Final →
      s.failure = none ∧ s.cells = cells := by
    intro s hreach hfinal
    obtain ⟨hok, herror⟩ := WorkQueue.joined hkeys hworkers hreach hfinal
    cases hfailure : s.failure with
    | some failure =>
      obtain ⟨e, he⟩ := herror failure hfailure
      rw [hserial] at he
      cases he
    | none =>
      have hcells := hok hfailure
      rw [hserial] at hcells
      exact ⟨rfl, (Except.ok.inj hcells).symm⟩
  rw [← hzipped, hserial]
  constructor
  · rintro ⟨s, hreach, hfinal, rfl⟩
    obtain ⟨hfailure, hcells⟩ := hend s hreach hfinal
    rw [hfailure, hcells]
    rfl
  · rintro rfl
    obtain ⟨s, hreach, hfinal⟩ := WorkQueue.exists_final (numbered blake2bVar salt shape passwords)
      (WorkQueue.start (chunkQueue shape out chunkJobs) workerCount (·.read out))
    obtain ⟨hfailure, hcells⟩ := hend s hreach hfinal
    refine ⟨s, hreach, hfinal, ?_⟩
    rw [hfailure, hcells]
    rfl

/-- On any number of workers, with chunks of any size taken in any order, the batch ends as
the loop does. -/
theorem fillsBatch_iff (workerCount dynamicChunkSize : Nat)
    (result : Except (Failure String) (List UInt8)) :
    FillsBatch blake2bVar salt shape workerCount dynamicChunkSize out passwords result ↔
      FillsBatch blake2bVar salt shape 1 0 out passwords result := by
  unfold FillsBatch
  dsimp only
  by_cases hlen : out.length = passwords.length * slotBytes shape
  · rw [if_neg (not_not.2 hlen), if_neg (not_not.2 hlen)]
    by_cases hnone : passwords.length = 0
    · rw [if_pos hnone, if_pos hnone]
    · rw [if_neg hnone, if_neg hnone]
      by_cases hworkers : workerCount ≤ 1
      · rw [if_pos hworkers, if_pos (le_refl 1)]
      · rw [if_neg hworkers, if_pos (le_refl 1)]
        have hchunk : 0 < max (firstBlockSelectedChunkSize passwords.length workerCount
          dynamicChunkSize) 1 := by omega
        by_cases hslot : slotBytes shape = 0
        · rw [if_pos hslot, if_pos (by rw [hslot, Nat.mul_zero])]
        · rw [if_neg hslot, if_neg (Nat.mul_ne_zero hchunk.ne' hslot)]
          exact workers_fill hslot hlen (by omega) hchunk result
  · rw [if_pos hlen, if_pos hlen]

/-- The loop ends in one way. -/
theorem loop_unique : ∃! result, FillsBatch blake2bVar salt shape 1 0 out passwords result := by
  unfold FillsBatch
  dsimp only
  simp only [if_pos (le_refl 1)]
  split_ifs <;> exact existsUnique_eq

/-- Both passes of a batch end on any number of threads as they do on one: the digests and the
matches of its last blocks, and the bytes of its first blocks. -/
theorem parallel_eq_serial (blake2bVar : Nat → List (List UInt8) → List UInt8) :
    (∀ (request : BatchRequest) (host : Argon2Host) (blocks : List UInt8) (workerCount : Nat)
      (finalized : Finalized), finalizeBatch request host blocks workerCount = .ok finalized ↔
        finalizeBatch request host blocks 1 = .ok finalized) ∧
    ∀ (salt : List UInt8) (shape : Argon2Shape) (out : List UInt8) (passwords : List String)
      (workerCount dynamicChunkSize : Nat),
      (∃! result,
        FillsBatch blake2bVar salt shape workerCount dynamicChunkSize out passwords result) ∧
      ∀ result, FillsBatch blake2bVar salt shape workerCount dynamicChunkSize out passwords result ↔
        FillsBatch blake2bVar salt shape 1 0 out passwords result := by
  refine ⟨fun _ _ _ => finalizeBatch_ok_iff, ?_⟩
  intro salt shape out passwords workerCount dynamicChunkSize
  refine ⟨?_, fillsBatch_iff workerCount dynamicChunkSize⟩
  simp only [fillsBatch_iff workerCount dynamicChunkSize]
  exact loop_unique

end TreeMiner.Host
