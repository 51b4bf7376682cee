import TreeMiner.Host.Batch
import TreeMiner.Host.Request

/-! `fillPasswordBlocks` of the C++ miner: threads that take slots of a batch from an atomic
counter, or a range of slots each, and write what `tm-argon2` writes on its own workers. -/

namespace TreeMiner.Cpp

open Lib
open Lib.WorkQueue (Tasks counted)

/-- `firstBlockWorkerCount`, on so many hardware threads. -/
def firstBlockWorkerCount (hardware_threads attempts worker_cap : Nat) : Nat :=
  if attempts < 8 then 1
  else if hardware_threads < 2 then 1
  else
    let worker_count := min attempts hardware_threads
    let worker_count := if 0 < worker_cap then min worker_count worker_cap else worker_count
    max 1 worker_count

/-- A thread in front of `fetch_add`, at slot `i` of those before `last`, or at its end. -/
inductive Thread
  | fetch
  | fill (i last : Nat)
  | returned

structure Workers where
  next_dynamic_index : Nat
  threads : List Thread
  /-- `getInputMemory`, by the number of the slot -/
  memory : Nat → List UInt8

section

variable (attempts chunk_size : Nat) (dynamic_chunks : Bool)
  (block : Nat → Except String (List UInt8))

/-- What a thread does to the counter and to the memory. One that throws ends the process, and
has no step. -/
inductive ThreadStep :
    Nat → Thread → (Nat → List UInt8) → Nat → Thread → (Nat → List UInt8) → Prop
  | fetch {begin memory} (hd : dynamic_chunks = true) (h : begin < attempts) :
      ThreadStep begin .fetch memory (begin + chunk_size)
        (.fill begin (min attempts (begin + chunk_size))) memory
  | stop {begin memory} (hd : dynamic_chunks = true) (h : attempts ≤ begin) :
      ThreadStep begin .fetch memory (begin + chunk_size) .returned memory
  | fill {next i last memory bytes} (h : i < last) (hblock : block i = .ok bytes) :
      ThreadStep next (.fill i last) memory next (.fill (i + 1) last)
        (Function.update memory i bytes)
  | again {next i last memory} (hd : dynamic_chunks = true) (h : last ≤ i) :
      ThreadStep next (.fill i last) memory next .fetch memory
  | leave {next i last memory} (hd : dynamic_chunks = false) (h : last ≤ i) :
      ThreadStep next (.fill i last) memory next .returned memory

/-- One of the threads goes on. -/
inductive WorkersStep : Workers → Workers → Prop
  | move {next next' t t' memory memory' before after}
      (h : ThreadStep attempts chunk_size dynamic_chunks block next t memory next' t' memory') :
      WorkersStep ⟨next, before ++ t :: after, memory⟩ ⟨next', before ++ t' :: after, memory'⟩

/-- The threads as they are launched. Without a counter the first empty range ends the loop. -/
def launch (worker_count : Nat) (memory : Nat → List UInt8) : Workers where
  next_dynamic_index := 0
  threads :=
    if dynamic_chunks then List.replicate worker_count .fetch
    else (((List.range worker_count).map (· * chunk_size)).takeWhile (· < attempts)).map
      fun static_begin => .fill static_begin (min attempts (static_begin + chunk_size))
  memory

end

/-- Every thread was joined. -/
def Workers.Joined (s : Workers) : Prop := ∀ t ∈ s.threads, t = .returned

/-- One task a slot. -/
def slots (block : Nat → Except String (List UInt8)) : Tasks Nat Nat (List UInt8) String where
  key := id
  run i _ := block i

/-- The input memory `fillPasswordBlocks` may leave: which thread goes on when is open. -/
def FillsPasswords (hardware_threads worker_cap dynamic_chunk_size : Nat) (params : Argon2Params)
    (passwords : List (List UInt8)) (memory memory' : Nat → List UInt8) : Prop :=
  let attempts := passwords.length
  let block := fun i => params.fillFirstBlocks (passwords.getD i [])
  let worker_count := firstBlockWorkerCount hardware_threads attempts worker_cap
  if worker_count ≤ 1 then WorkQueue.serial (slots block) (List.range attempts) memory = .ok memory'
  else
    let chunk_size :=
      Host.firstBlockSelectedChunkSize attempts worker_count dynamic_chunk_size
    let dynamic_chunks := decide (0 < dynamic_chunk_size)
    ∃ s, Relation.ReflTransGen (WorkersStep attempts chunk_size dynamic_chunks block)
        (launch attempts chunk_size dynamic_chunks worker_count memory) s ∧
      s.Joined ∧ memory' = s.memory

/-! ## The threads as workers of a queue -/

section

variable {attempts chunk_size : Nat} {dynamic_chunks : Bool}
  {block : Nat → Except String (List UInt8)}

def Thread.worker : Thread → WorkQueue.Worker Nat String
  | .fetch => .idle
  | .fill i last => .busy (List.range' i (last - i))
  | .returned => .stopped

@[simp] theorem worker_fetch : Thread.fetch.worker = .idle := rfl

@[simp] theorem worker_fill (i last : Nat) :
    (Thread.fill i last).worker = .busy (List.range' i (last - i)) := rfl

@[simp] theorem worker_returned : Thread.returned.worker = .stopped := rfl

variable (attempts chunk_size dynamic_chunks) in
/-- The counter as a queue of the chunks it has still to hand out. -/
def Workers.queued (s : Workers) : WorkQueue.State Nat Nat (List UInt8) String where
  queue := if dynamic_chunks then counted attempts chunk_size s.next_dynamic_index else []
  workers := s.threads.map Thread.worker
  cells := s.memory

theorem range'_front {i last : Nat} (h : i < last) :
    List.range' i (last - i) = i :: List.range' (i + 1) (last - (i + 1)) := by
  rw [show last - i = last - (i + 1) + 1 by omega]
  exact List.range'_succ

/-- A step of a thread is one of its worker, or two. -/
theorem step_queued (hsize : 0 < chunk_size) {s s' : Workers}
    (h : WorkersStep attempts chunk_size dynamic_chunks block s s') :
    Relation.TransGen (WorkQueue.Step (slots block))
      (s.queued attempts chunk_size dynamic_chunks)
      (s'.queued attempts chunk_size dynamic_chunks) := by
  cases h with
  | @move next next' t t' memory memory' before after h =>
    unfold Workers.queued
    simp only [List.map_append, List.map_cons]
    cases h with
    | fetch hd h =>
      have hlast : min attempts (next + chunk_size) - next = min chunk_size (attempts - next) := by
        omega
      rw [hd, if_pos rfl, if_pos rfl, WorkQueue.counted_cons h hsize, worker_fill, hlast]
      exact .single (.move .take)
    | stop hd h =>
      rw [hd, if_pos rfl, if_pos rfl, WorkQueue.counted_nil h, WorkQueue.counted_nil (by omega)]
      exact .single (.move .stop)
    | fill h hblock =>
      rw [worker_fill, worker_fill, range'_front h]
      exact .single (.move (.fill hblock))
    | again hd h =>
      rw [worker_fill, Nat.sub_eq_zero_of_le h]
      exact .single (.move .next)
    | leave hd h =>
      rw [worker_fill, Nat.sub_eq_zero_of_le h, hd, if_neg Bool.false_ne_true]
      exact .tail (.single (.move .next)) (.move .stop)

theorem reach_queued (hsize : 0 < chunk_size) {s s' : Workers}
    (h : Relation.ReflTransGen (WorkersStep attempts chunk_size dynamic_chunks block) s s') :
    WorkQueue.Reachable (slots block) (s.queued attempts chunk_size dynamic_chunks)
      (s'.queued attempts chunk_size dynamic_chunks) := by
  induction h with
  | refl => exact .refl
  | tail _ hstep ih => exact ih.trans (step_queued hsize hstep).to_reflTransGen

/-- The ranges of the static launch are the chunks of the counter. -/
theorem ranges_counted (hsize : 0 < chunk_size) (worker_count w : Nat)
    (hcover : attempts ≤ (w + worker_count) * chunk_size) :
    ((((List.range' w worker_count).map (· * chunk_size)).takeWhile (· < attempts)).map
      fun static_begin => Thread.worker
        (.fill static_begin (min attempts (static_begin + chunk_size)))) =
      (counted attempts chunk_size (w * chunk_size)).map .busy := by
  induction worker_count generalizing w with
  | zero =>
    rw [WorkQueue.counted_nil (by simpa using hcover)]
    rfl
  | succ n ih =>
    have hnext := ih (w + 1) (by rwa [Nat.add_assoc, Nat.add_comm 1])
    rw [List.range'_succ, List.map_cons]
    by_cases h : w * chunk_size < attempts
    · have hlast : min attempts (w * chunk_size + chunk_size) - w * chunk_size =
          min chunk_size (attempts - w * chunk_size) := by omega
      rw [List.takeWhile_cons, if_pos (decide_eq_true h), List.map_cons, hnext, worker_fill, hlast,
        WorkQueue.counted_cons h hsize, List.map_cons, Nat.succ_mul]
    · rw [List.takeWhile_cons, if_neg (by simpa using h), WorkQueue.counted_nil (Nat.not_lt.1 h)]
      rfl

/-- The launched threads are workers in front of the queue, or ones that have each taken a
chunk of it. -/
theorem launch_queued (hsize : 0 < chunk_size) {worker_count : Nat} (hworkers : 0 < worker_count)
    (hattempts : 0 < attempts)
    (hcover : dynamic_chunks = false → attempts ≤ worker_count * chunk_size)
    (memory : Nat → List UInt8) :
    ∃ n, 0 < n ∧ WorkQueue.Reachable (slots block)
      (WorkQueue.start (counted attempts chunk_size 0) n memory)
      ((launch attempts chunk_size dynamic_chunks worker_count memory).queued attempts chunk_size
        dynamic_chunks) := by
  cases dynamic_chunks with
  | true =>
    refine ⟨worker_count, hworkers, ?_⟩
    unfold launch Workers.queued WorkQueue.start
    rw [if_pos rfl, if_pos rfl, List.map_replicate]
    exact .refl
  | false =>
    have hranges := @ranges_counted attempts chunk_size hsize worker_count 0 (by
      rw [Nat.zero_add]
      exact hcover rfl)
    rw [Nat.zero_mul, ← List.range_eq_range'] at hranges
    refine ⟨(counted attempts chunk_size 0).length, ?_, ?_⟩
    · rw [WorkQueue.counted_cons hattempts hsize]
      exact Nat.succ_pos _
    · have hall := WorkQueue.hand_out (T := slots block) (counted attempts chunk_size 0) [] memory
      unfold launch Workers.queued WorkQueue.start
      rw [if_neg Bool.false_ne_true, if_neg Bool.false_ne_true, List.map_map]
      rw [List.nil_append, List.nil_append, ← hranges] at hall
      exact hall

/-- What the threads leave once all are joined. -/
theorem joined_memory (hsize : 0 < chunk_size) {worker_count : Nat} (hworkers : 0 < worker_count)
    (hattempts : 0 < attempts)
    (hcover : dynamic_chunks = false → attempts ≤ worker_count * chunk_size)
    {value : Nat → List UInt8} (hblock : ∀ i, block i = .ok (value i))
    {memory : Nat → List UInt8} {s : Workers} (hreach : Relation.ReflTransGen
      (WorkersStep attempts chunk_size dynamic_chunks block)
      (launch attempts chunk_size dynamic_chunks worker_count memory) s) (hjoined : s.Joined) :
    WorkQueue.serial (slots block) (List.range attempts) memory = .ok s.memory := by
  obtain ⟨n, hn, hlaunch⟩ := @launch_queued attempts chunk_size dynamic_chunks block hsize
    worker_count hworkers hattempts hcover memory
  have hqueue : (counted attempts chunk_size 0).flatten = List.range attempts := by
    rw [WorkQueue.counted_flatten hsize, Nat.sub_zero, List.range_eq_range']
  have hfinal : (s.queued attempts chunk_size dynamic_chunks).Final := by
    intro w hw
    obtain ⟨t, ht, rfl⟩ := List.mem_map.1 hw
    rw [hjoined t ht]
    exact trivial
  have hkeys : ((counted attempts chunk_size 0).flatten.map (slots block).key).Nodup := by
    rw [hqueue]
    exact (List.map_id _).symm ▸ List.nodup_range
  obtain ⟨hok, herror⟩ := WorkQueue.joined hkeys hn (hlaunch.trans (reach_queued hsize hreach))
    hfinal
  have hsucceeds : ∃ cells, WorkQueue.serial (slots block) _ memory = .ok cells :=
    WorkQueue.serial_succeeds hkeys fun i _ => ⟨value i, hblock i⟩
  obtain ⟨cells, hserial⟩ := hsucceeds
  rw [hqueue] at hok herror hserial
  refine hok ?_
  by_contra hne
  obtain ⟨e, he⟩ := Option.ne_none_iff_exists'.1 hne
  obtain ⟨e', he'⟩ := herror e he
  rw [hserial] at he'
  cases he'

/-! ## The threads return -/

variable (dynamic_chunks) in
/-- Only with a counter does a thread come back to it. -/
def Workers.Ranged (s : Workers) : Prop := dynamic_chunks = false → .fetch ∉ s.threads

theorem ranged_launch (worker_count : Nat) (memory : Nat → List UInt8) :
    (launch attempts chunk_size dynamic_chunks worker_count memory).Ranged dynamic_chunks := by
  intro hd hmem
  unfold launch at hmem
  rw [hd, if_neg Bool.false_ne_true] at hmem
  obtain ⟨_, -, h⟩ := List.mem_map.1 hmem
  cases h

theorem ranged_step {s s' : Workers} (hs : s.Ranged dynamic_chunks)
    (h : WorkersStep attempts chunk_size dynamic_chunks block s s') :
    s'.Ranged dynamic_chunks := by
  intro hd hmem
  have hold := hs hd
  cases h with
  | move h =>
    rw [List.mem_append, List.mem_cons, not_or, not_or] at hold
    rcases List.mem_append.1 hmem with hmem | hmem
    · exact hold.1 hmem
    rcases List.mem_cons.1 hmem with heq | hmem
    · cases h with
      | fetch hd' => exact absurd (hd.symm.trans hd') Bool.false_ne_true
      | stop => cases heq
      | fill => cases heq
      | again hd' => exact absurd (hd.symm.trans hd') Bool.false_ne_true
      | leave => cases heq
    · exact hold.2.2 hmem

theorem exists_step {value : Nat → List UInt8} (hblock : ∀ i, block i = .ok (value i))
    {s : Workers} (hs : s.Ranged dynamic_chunks) (hjoined : ¬ s.Joined) :
    ∃ s', WorkersStep attempts chunk_size dynamic_chunks block s s' := by
  unfold Workers.Joined at hjoined
  push Not at hjoined
  obtain ⟨t, ht, hne⟩ := hjoined
  obtain ⟨before, after, hsplit⟩ := List.append_of_mem ht
  obtain ⟨next, threads, memory⟩ := s
  obtain rfl : threads = _ := hsplit
  cases t with
  | returned => exact absurd rfl hne
  | fetch =>
    have hd : dynamic_chunks = true := by
      by_contra hd
      exact hs (Bool.not_eq_true _ ▸ hd) ht
    by_cases h : next < attempts
    · exact ⟨_, .move (.fetch hd h)⟩
    · exact ⟨_, .move (.stop hd (Nat.not_lt.1 h))⟩
  | fill i last =>
    by_cases h : i < last
    · exact ⟨_, .move (.fill h (hblock i))⟩
    · cases hd : dynamic_chunks with
      | true => exact ⟨_, .move (.again rfl (Nat.not_lt.1 h))⟩
      | false => exact ⟨_, .move (.leave rfl (Nat.not_lt.1 h))⟩

/-- From everywhere the threads come to their end. -/
theorem exists_joined (hsize : 0 < chunk_size) {value : Nat → List UInt8}
    (hblock : ∀ i, block i = .ok (value i)) (s : Workers) (hs : s.Ranged dynamic_chunks) :
    ∃ s', Relation.ReflTransGen (WorkersStep attempts chunk_size dynamic_chunks block) s s' ∧
      s'.Joined := by
  induction hweight : (s.queued attempts chunk_size dynamic_chunks).weight
    using Nat.strong_induction_on generalizing s with
  | _ n ih =>
    by_cases hjoined : s.Joined
    · exact ⟨s, .refl, hjoined⟩
    · obtain ⟨t, hstep⟩ : ∃ t, WorkersStep attempts chunk_size dynamic_chunks block s t :=
        exists_step hblock hs hjoined
      have hless := WorkQueue.weight_of_steps (step_queued hsize hstep)
      obtain ⟨s', hreach, hend⟩ := ih _ (hweight ▸ hless) t (ranged_step hs hstep) rfl
      exact ⟨s', .head hstep hreach, hend⟩

end

end TreeMiner.Cpp

namespace TreeMiner.Host

open Lib

theorem slot_read_length {shape : Argon2Shape} (hslot : slotBytes shape ≠ 0) {out : List UInt8}
    {jobs : Nat} (hlen : out.length = jobs * slotBytes shape) {slice : Slice}
    (h : slice ∈ (Slice.whole out).chunks (slotBytes shape)) :
    (slice.read out).length = slotBytes shape := by
  have hmem : slice ∈ Slice.chunks (slotBytes shape) ⟨0, jobs * slotBytes shape⟩ := by
    rw [← hlen]
    exact h
  obtain ⟨hsize, hend⟩ := Slice.length_of_mem_chunks (Nat.pos_of_ne_zero hslot) hmem
  rw [read_length (by rw [hsize, hlen, ← Nat.zero_add (jobs * _)]; exact hend), hsize]

/-- What the Rust workers leave, on any number of them. -/
theorem fillsBatch_firstBlocks {blake2bVar : Nat → List (List UInt8) → List UInt8}
    (hb : IsBlake2b blake2bVar) {salt : List UInt8} {shape : Argon2Shape} (hlanes : shape.lanes ≠ 0)
    {out : List UInt8} {passwords : List String}
    (hlen : out.length = passwords.length * slotBytes shape) (workerCount dynamicChunkSize : Nat)
    (result : Except (Failure String) (List UInt8)) :
    FillsBatch blake2bVar salt shape workerCount dynamicChunkSize out passwords result ↔
      result = .ok (passwords.flatMap fun password =>
        firstBlocks shape password.toUTF8.toList salt) := by
  have hslot : slotBytes shape ≠ 0 := by
    have : shape.lanes.toNat ≠ 0 := fun h => hlanes (UInt32.toNat_inj.1 h)
    unfold slotBytes INPUT_BLOCKS_PER_JOB ARGON2_BLOCK_SIZE
    omega
  rw [fillsBatch_iff]
  unfold FillsBatch
  dsimp only
  rw [if_neg (not_not.2 hlen), if_pos (le_refl 1), if_neg hslot]
  split_ifs with hnone
  · obtain rfl := List.length_eq_zero_iff.1 hnone
    have hout : out = [] := List.length_eq_zero_iff.1 (by rw [hlen]; exact Nat.zero_mul _)
    rw [hout]
    rfl
  · have hcount : ((Slice.whole out).chunks (slotBytes shape)).length = passwords.length :=
      slots_length hslot hlen
    have hfst := List.map_fst_zip (Nat.le_of_eq hcount)
    have hsnd := List.map_snd_zip (Nat.le_of_eq hcount.symm)
    have hkeys : ((((Slice.whole out).chunks (slotBytes shape)).zip passwords).map
        (zipped blake2bVar salt shape).key).Nodup := by
      rw [show (zipped blake2bVar salt shape).key = Prod.fst from rfl, hfst]
      exact Slice.chunks_nodup _ _
    have hrun : ∀ task ∈ ((Slice.whole out).chunks (slotBytes shape)).zip passwords,
        (zipped blake2bVar salt shape).run task (task.1.read out) =
          .ok (firstBlocks shape task.2.toUTF8.toList salt) := by
      intro task htask
      have hsize := slot_read_length hslot hlen (List.of_mem_zip htask).1
      unfold zipped fillSlot
      dsimp only
      rw [fillFirstBlocks_eq hb _ _ hsize hlanes]
    have hsucceeds : ∃ cells, WorkQueue.serial (zipped blake2bVar salt shape) _
        (fun slice : Slice => slice.read out) = .ok cells :=
      WorkQueue.serial_succeeds hkeys fun task htask => ⟨_, hrun task htask⟩
    obtain ⟨cells, hserial⟩ := hsucceeds
    have hcells : ∀ task ∈ ((Slice.whole out).chunks (slotBytes shape)).zip passwords,
        cells task.1 = firstBlocks shape task.2.toUTF8.toList salt := fun task htask =>
      (Except.ok.inj ((hrun task htask).symm.trans
        ((WorkQueue.serial_value hkeys hserial).1 task htask))).symm
    have hgather : gather shape out cells =
        passwords.flatMap fun password => firstBlocks shape password.toUTF8.toList salt := by
      have hfront := congrArg (List.flatMap cells) hfst
      have hback := congrArg (List.flatMap fun password : String =>
        firstBlocks shape password.toUTF8.toList salt) hsnd
      rw [List.flatMap_map] at hfront hback
      exact hfront.symm.trans ((List.flatMap_congr hcells).trans hback)
    rw [hserial, ← hgather]
    rfl

end TreeMiner.Host

namespace TreeMiner.Cpp

open Lib

theorem chunk_pos {attempts worker_count : Nat} (hattempts : 0 < attempts)
    (hworkers : 1 < worker_count) (dynamic_chunk_size : Nat) :
    0 < Host.firstBlockSelectedChunkSize attempts worker_count dynamic_chunk_size := by
  unfold Host.firstBlockSelectedChunkSize Host.firstBlockChunkSize
  rw [if_neg (by omega)]
  split_ifs
  · omega
  · omega
  · exact Nat.div_pos (by omega) (by omega)

/-- Static ranges reach to the end of the batch. -/
theorem chunk_cover {attempts worker_count : Nat} (hattempts : 0 < attempts)
    (hworkers : 1 < worker_count) {dynamic_chunk_size : Nat}
    (hstatic : decide (0 < dynamic_chunk_size) = false) :
    attempts ≤ worker_count *
      Host.firstBlockSelectedChunkSize attempts worker_count dynamic_chunk_size := by
  have hzero := of_decide_eq_false hstatic
  unfold Host.firstBlockSelectedChunkSize Host.firstBlockChunkSize
  rw [if_neg (by omega), if_neg (by omega), if_neg (by omega)]
  have hdiv := Nat.lt_mul_div_succ (attempts + worker_count - 1) (by omega : 0 < worker_count)
  rw [Nat.mul_add, Nat.mul_one] at hdiv
  omega

/-- Every slot of the batch with the first blocks of its password, and the others as they were. -/
def filled (shape : Host.Argon2Shape) (salt : List UInt8) (passwords : List (List UInt8))
    (memory : Nat → List UInt8) : Nat → List UInt8 := fun i =>
  if i < passwords.length then Host.firstBlocks shape (passwords.getD i []) salt else memory i

theorem fillsPasswords_iff {params : Argon2Params} {saltBytes : List UInt8}
    (hsalt : hex_to_bytes params.salt = .ok saltBytes) (hsecret : params.secret = [])
    (had : params.ad = []) (hardware_threads worker_cap dynamic_chunk_size : Nat)
    (passwords : List (List UInt8)) (memory memory' : Nat → List UInt8) :
    FillsPasswords hardware_threads worker_cap dynamic_chunk_size params passwords memory memory' ↔
      memory' = filled params.shape saltBytes passwords memory := by
  have hblock : ∀ i, params.fillFirstBlocks (passwords.getD i []) =
      .ok (Host.firstBlocks params.shape (passwords.getD i []) saltBytes) :=
    fun i => Argon2Params.fillFirstBlocks_eq _ hsalt hsecret had
  have hserial : WorkQueue.serial
      (slots fun i => params.fillFirstBlocks (passwords.getD i []))
      (List.range passwords.length) memory =
        .ok (filled params.shape saltBytes passwords memory) := by
    have hkeys : (List.range passwords.length).map
        (slots fun i => params.fillFirstBlocks (passwords.getD i [])).key =
        List.range passwords.length := List.map_id _
    refine WorkQueue.serial_ok (by rw [hkeys]; exact List.nodup_range) (fun i hi => ?_)
      fun i hi => ?_
    · refine (hblock i).trans (congrArg Except.ok ?_)
      exact (if_pos (List.mem_range.1 hi)).symm
    · rw [hkeys, List.mem_range] at hi
      exact if_neg hi
  unfold FillsPasswords
  dsimp only
  split_ifs with hone
  · rw [hserial]
    exact ⟨fun h => (Except.ok.inj h).symm, fun h => congrArg Except.ok h.symm⟩
  · have hworkers : 1 < firstBlockWorkerCount hardware_threads passwords.length worker_cap :=
      Nat.not_le.1 hone
    have hattempts : 0 < passwords.length := by
      by_contra hnone
      have : firstBlockWorkerCount hardware_threads passwords.length worker_cap = 1 := by
        unfold firstBlockWorkerCount
        rw [if_pos (by omega)]
      omega
    have hsize := chunk_pos hattempts hworkers dynamic_chunk_size
    have hend : ∀ s, Relation.ReflTransGen _ (launch _ _ _ _ memory) s → s.Joined →
        s.memory = filled params.shape saltBytes passwords memory := fun s hreach hjoined =>
      Except.ok.inj ((joined_memory hsize (by omega) hattempts (chunk_cover hattempts hworkers)
        hblock hreach hjoined).symm.trans hserial)
    constructor
    · rintro ⟨s, hreach, hjoined, rfl⟩
      exact hend s hreach hjoined
    · rintro rfl
      obtain ⟨s, hreach, hjoined⟩ := exists_joined hsize hblock _ (ranged_launch _ memory)
      exact ⟨s, hreach, hjoined, (hend s hreach hjoined).symm⟩

/-! ## A request's batch -/

/-- `decodeHexBytes`, for the first blocks of the device. -/
def decodeHexBytes : List UInt8 → Except String (List UInt8)
  | [] => .ok []
  | [_] => .error "salt contains non-hex character"
  | a :: b :: rest =>
    match hexNibble a, hexNibble b with
    | some high, some low => do
      let bytes ← decodeHexBytes rest
      .ok (UInt8.ofNat (high * 16 + low) :: bytes)
    | _, _ => .error "salt contains non-hex character"

/-- The parameters `runBatch` makes of a request. -/
def batchParams (request : RequestOf (List UInt8)) : Argon2Params where
  type_ := 2
  version := 0x13
  salt := cppTexts.normalizeHex request.saltHex
  secret := []
  ad := []
  outLen := 64
  t_cost := 1
  m_cost := request.difficulty
  lanes := 1

theorem decodeHexBytes_of_hexDecode {cs : List Char} {bytes : List UInt8}
    (h : hexDecode cs = some bytes) :
    decodeHexBytes (cs.map fun c => UInt8.ofNat c.toNat) = .ok bytes := by
  induction cs using hexDecode.induct generalizing bytes with
  | case1 =>
    obtain rfl := Option.some.inj h
    rfl
  | case2 c => cases h
  | case3 hi lo rest ih =>
    obtain ⟨x, y, tail, hx, hy, htail, rfl⟩ := hexDecode_cons h
    rw [List.map_cons, List.map_cons, decodeHexBytes, hexNibble_of_toDigit16 hx,
      hexNibble_of_toDigit16 hy, ih htail]
    rfl

/-- The salt of an accepted request decodes. -/
theorem salt_accepted {saltHex : String}
    (h : rustTexts.saltErrors (rustTexts.normalizeHex saltHex) = []) :
    ∃ bytes, hexToBytes (rustTexts.normalizeHex saltHex) = .ok bytes ∧
      hexDecode (rustTexts.normalizeHex saltHex).toList = some bytes := by
  generalize rustTexts.normalizeHex saltHex = salt at h
  unfold Texts.saltErrors at h
  split_ifs at h
  simp only [List.append_eq_nil_iff, pushIf_nil] at h
  obtain ⟨⟨heven, -⟩, hhex⟩ := h
  have hdigits := List.all_eq_true.1 (Bool.not_eq_false _ ▸ hhex)
  have hsize : salt.utf8ByteSize % 2 = 0 := not_not.1 heven
  obtain ⟨bytes, hbytes⟩ := hexDecode_isSome (utf8ByteSize_of_hexdigits hdigits ▸ hsize) hdigits
  refine ⟨bytes, ?_, hbytes⟩
  unfold hexToBytes
  rw [if_neg (not_not.2 hsize), hbytes]

theorem map_getD_range {α : Type} (l : List α) (d : α) :
    (List.range l.length).map (fun i => l.getD i d) = l := by
  refine List.ext_getElem (by rw [List.length_map, List.length_range]) fun i hi hi' => ?_
  rw [List.getElem_map, List.getElem_range, List.getD_eq_getElem _ _ hi']

/-- For a request that passes, both miners put the same bytes in front of the device: the C++
threads in any order, on any number of them, with any chunks, and the Rust ones likewise. -/
theorem batch_inputs_agree {r : HashRequest} (haccepted : rustTexts.validateRequest r = []) :
    ∃ saltBytes, decodeHexBytes (cppTexts.normalizeHex (lit r.saltHex)) = .ok saltBytes ∧
      ∀ (passwords : List String) (memory : Nat → List UInt8),
        let params := batchParams (r.map lit)
        let blocks := filled params.shape saltBytes
          (passwords.map fun password => password.toUTF8.toList) memory
        (∀ hardware_threads worker_cap dynamic_chunk_size memory',
          FillsPasswords hardware_threads worker_cap dynamic_chunk_size params
            (passwords.map fun password => password.toUTF8.toList) memory memory' ↔
              memory' = blocks) ∧
        (∀ worker_count chunk_size dynamic_chunks s, 0 < chunk_size →
          let step := WorkersStep passwords.length chunk_size dynamic_chunks fun i =>
            params.fillFirstBlocks
              ((passwords.map fun password => password.toUTF8.toList).getD i [])
          Relation.ReflTransGen step
            (launch passwords.length chunk_size dynamic_chunks worker_count memory) s →
            ∃ s', Relation.ReflTransGen step s s' ∧ s'.Joined) ∧
        ∀ blake2bVar, Host.IsBlake2b blake2bVar → ∀ out : List UInt8,
          out.length = passwords.length * Host.slotBytes params.shape →
          ∀ workerCount dynamicChunkSize result,
            Host.FillsBatch blake2bVar saltBytes params.shape workerCount dynamicChunkSize out
              passwords result ↔
                result = .ok ((List.range passwords.length).flatMap blocks) := by
  have hsalt : rustTexts.saltErrors (rustTexts.normalizeHex r.saltHex) = [] := by
    unfold Texts.validateRequest at haccepted
    simp only [List.append_eq_nil_iff] at haccepted
    exact haccepted.1.1.1.1.1.1.1.1.1.2
  obtain ⟨saltBytes, hbytes, hdecode⟩ := salt_accepted hsalt
  have hnormal : cppTexts.normalizeHex (lit r.saltHex) = lit (rustTexts.normalizeHex r.saltHex) :=
    lit_hom.normalizeHex r.saltHex
  refine ⟨saltBytes, ?_, fun passwords memory => ?_⟩
  · rw [hnormal, lit_of_hexDecode hdecode]
    exact decodeHexBytes_of_hexDecode hdecode
  intro params blocks
  have hparams : hex_to_bytes params.salt = .ok saltBytes := by
    rw [show params.salt = lit (rustTexts.normalizeHex r.saltHex) from hnormal]
    exact hex_to_bytes_eq hbytes
  refine ⟨fun hardware_threads worker_cap dynamic_chunk_size memory' =>
    fillsPasswords_iff hparams rfl rfl _ _ _ _ _ _, ?_, ?_⟩
  · intro worker_count chunk_size dynamic_chunks s hsize step hreach
    have hranged : s.Ranged dynamic_chunks := by
      induction hreach with
      | refl => exact ranged_launch worker_count memory
      | tail _ hstep ih => exact ranged_step ih hstep
    exact exists_joined hsize (fun i => Argon2Params.fillFirstBlocks_eq _ hparams rfl rfl) s hranged
  intro blake2bVar hb out hout workerCount dynamicChunkSize result
  have hblocks : (List.range passwords.length).flatMap blocks = passwords.flatMap fun password =>
      Host.firstBlocks params.shape password.toUTF8.toList saltBytes := by
    have hslot : ∀ i ∈ List.range passwords.length, blocks i = Host.firstBlocks params.shape
        ((passwords.map fun password => password.toUTF8.toList).getD i []) saltBytes :=
      fun i hi => if_pos (by rw [List.length_map]; exact List.mem_range.1 hi)
    rw [List.flatMap_congr hslot, ← List.flatMap_map (fun i => (passwords.map _).getD i [])
      (fun bytes => Host.firstBlocks params.shape bytes saltBytes)]
    have hrange := map_getD_range (passwords.map fun password => password.toUTF8.toList) []
    rw [List.length_map] at hrange
    rw [hrange, List.flatMap_map]
  rw [hblocks]
  exact Host.fillsBatch_firstBlocks hb (show (1 : UInt32) ≠ 0 by decide) hout workerCount
    dynamicChunkSize result

/-- The request of a mining batch. -/
def miningRequest : HashRequest where
  algorithm := "argon2id-xen"
  backend := "cuda"
  saltHex := "0x24691e54afafe241"
  key := ""
  keyPrefix := ""
  targetPattern := "XEN11"
  difficulty := 8
  batchSize := 16
  deviceId := 0
  gpuFirstBlocks := false

theorem batch_inputs_agree_mining : ∃ saltBytes,
    decodeHexBytes (cppTexts.normalizeHex (lit miningRequest.saltHex)) = .ok saltBytes :=
  (batch_inputs_agree (show rustTexts.validateRequest miningRequest = [] by decide)).imp
    fun _ h => h.1

end TreeMiner.Cpp
