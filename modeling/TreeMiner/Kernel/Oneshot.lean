import TreeMiner.Kernel.Wave
import TreeMiner.Lib.Run

/-! `argon2_kernel_oneshot`: the 32 work-items of one job in lockstep fill blocks 2 to
`4 * segment_blocks - 1` as Argon2id does. Memory is the device buffer, word by word. -/

namespace TreeMiner.Kernel

open Lib Lib.Argon2

def ARGON2_SYNC_POINTS : UInt32 := 4

def QWORDS_IN_BLOCK : Nat := 128

abbrev Memory := Nat → UInt64

namespace BlockTh

def load (memory : Memory) (block thread : Nat) : BlockTh where
  a := memory (block + thread)
  b := memory (block + THREADS_PER_LANE + thread)
  c := memory (block + 2 * THREADS_PER_LANE + thread)
  d := memory (block + 3 * THREADS_PER_LANE + thread)

def loadXor (self : BlockTh) (memory : Memory) (block thread : Nat) : BlockTh :=
  self.xor (load memory block thread)

def store (self : BlockTh) (memory : Memory) (block thread : Nat) : Memory :=
  let memory := Function.update memory (block + thread) self.a
  let memory := Function.update memory (block + THREADS_PER_LANE + thread) self.b
  let memory := Function.update memory (block + 2 * THREADS_PER_LANE + thread) self.c
  Function.update memory (block + 3 * THREADS_PER_LANE + thread) self.d

end BlockTh

/-- The work-items store their quarters. -/
def storeBlock (w : Wave BlockTh) (memory : Memory) (block : Nat) : Memory :=
  (List.finRange 32).foldl (fun memory t => (w t).store memory block t.val) memory

/-! ## The kernel -/

/-- What the loops carry: the buffer, the pointer to the block to fill, and the registers. -/
structure State where
  memory : Memory
  memCurr : Nat
  prev : Wave BlockTh
  addr : Wave BlockTh
  threadInput : Wave UInt32

def nextAddresses (threadInput : Wave UInt32) : Wave BlockTh :=
  let addr : Wave BlockTh := fun t => ⟨(threadInput t).toUInt64, 0, 0, 0⟩
  let addr := shuffleBlock addr
  let addr : Wave BlockTh := fun t => { addr t with a := (addr t).a ^^^ (threadInput t).toUInt64 }
  let tmp := addr
  let addr := shuffleBlock addr
  fun t => (addr t).xor (tmp t)

def umulhi (x y : UInt32) : UInt32 := ((x.toUInt64 * y.toUInt64) >>> 32).toUInt32

def computeRefPos (segmentBlocks slice offset refIndex : UInt32) : UInt32 :=
  let refAreaSize := slice * segmentBlocks + offset - 1
  let index := umulhi refIndex refIndex
  refAreaSize - 1 - umulhi refAreaSize index

section Steps

variable (memLane : Nat) (segmentBlocks : UInt32)

def argon2Core (s : State) (refIndex : Wave UInt32) : State :=
  let prev : Wave BlockTh := fun t =>
    (s.prev t).loadXor s.memory (memLane + (refIndex t).toNat * QWORDS_IN_BLOCK) t.val
  let tmp := prev
  let prev := shuffleBlock prev
  let prev : Wave BlockTh := fun t => (prev t).xor (tmp t)
  { s with prev, memory := storeBlock prev s.memory s.memCurr }

/-- The address block is made anew every 128 offsets. -/
def refresh (s : State) (offset : Nat) : State :=
  if offset % QWORDS_IN_BLOCK = 0 then
    let threadInput : Wave UInt32 := fun t =>
      if t.val = 6 then s.threadInput t + 1 else s.threadInput t
    { s with threadInput, addr := nextAddresses threadInput }
  else s

def argon2StepIndexed (slice offset : Nat) (s : State) : State :=
  let addrIndex := offset % QWORDS_IN_BLOCK
  let s := refresh s offset
  let thr := addrIndex % THREADS_PER_LANE
  let idx := addrIndex / THREADS_PER_LANE
  let value := shfl64 (fun t => (s.addr t).getUniform idx) fun _ => thr
  argon2Core memLane s fun t =>
    computeRefPos segmentBlocks (UInt32.ofNat slice) (UInt32.ofNat offset) (value t).toUInt32

def argon2StepDependent (slice offset : Nat) (s : State) : State :=
  let value := shfl64 (fun t => (s.prev t).a) fun _ => 0
  argon2Core memLane s fun t =>
    computeRefPos segmentBlocks (UInt32.ofNat slice) (UInt32.ofNat offset) (value t).toUInt32

/-- `mem_curr` moves on by one block. -/
def advance (s : State) : State := { s with memCurr := s.memCurr + QWORDS_IN_BLOCK }

def indexedSlice (slice first : Nat) (s : State) : State :=
  (List.range' first (segmentBlocks.toNat - first)).foldl
    (fun s offset => advance (argon2StepIndexed memLane segmentBlocks slice offset s)) s

def dependentSlice (slice : Nat) (s : State) : State :=
  (List.range' 0 segmentBlocks.toNat).foldl
    (fun s offset => advance (argon2StepDependent memLane segmentBlocks slice offset s)) s

end Steps

/-- Registers and pointer before the first loop. -/
def start (memory : Memory) (memLane : Nat) (laneBlocks : UInt32) : State :=
  let threadInput : Wave UInt32 := fun t =>
    (if t.val = 3 then laneBlocks else 0) + (if t.val = 4 then 1 else 0) +
      (if t.val = 5 then 2 else 0) + if t.val = 6 then 1 else 0
  { memory
    memCurr := memLane + 2 * QWORDS_IN_BLOCK
    prev := fun t => .load memory (memLane + QWORDS_IN_BLOCK) t.val
    addr := nextAddresses threadInput
    threadInput }

/-- Slice 1 restarts the address counter. -/
def restart (s : State) : State :=
  { s with threadInput := fun t =>
      if t.val = 2 then s.threadInput t + 1 else if t.val = 6 then 0 else s.threadInput t }

def argon2KernelOneshot (memory : Memory) (jobId : Nat) (segmentBlocks : UInt32) : Memory :=
  let laneBlocks := ARGON2_SYNC_POINTS * segmentBlocks
  let memLane := jobId * laneBlocks.toNat * QWORDS_IN_BLOCK
  let s := start memory memLane laneBlocks
  let s := indexedSlice memLane segmentBlocks 0 2 s
  let s := restart s
  let s := indexedSlice memLane segmentBlocks 1 0 s
  let s := (List.range' 2 2).foldl (fun s slice => dependentSlice memLane segmentBlocks slice s) s
  s.memory

/-! ## Loads and stores -/

/-- The block at an address. -/
def blockAt (memory : Memory) (block : Nat) : Block := fun i => memory (block + i.val)

theorem load_holds (memory : Memory) (block : Nat) :
    Holds plain (fun t => .load memory block t.val) (blockAt memory block) := by
  intro t q
  fin_cases q
  · exact congrArg memory (by simp [plain])
  · exact congrArg memory (by simp [plain, THREADS_PER_LANE, Nat.add_assoc])
  · exact congrArg memory (by simp [plain, THREADS_PER_LANE, Nat.add_assoc])
  · exact congrArg memory (by simp [plain, THREADS_PER_LANE, Nat.add_assoc])

theorem Holds.xor {pos : Fin 32 → Fin 4 → Fin 128} {w w' : Wave BlockTh} {B B' : Block}
    (h : Holds pos w B) (h' : Holds pos w' B') :
    Holds pos (fun t => (w t).xor (w' t)) (Argon2.xor B B') := by
  intro t q
  unfold Argon2.xor
  rw [← h, ← h']
  fin_cases q <;> rfl

theorem plain_inj {s t : Fin 32} {q r : Fin 4} : plain t q = plain s r ↔ t = s ∧ q = r := by
  unfold plain
  constructor
  · intro h
    have h := Fin.ext_iff.1 h
    dsimp only at h
    exact ⟨Fin.ext (by omega), Fin.ext (by omega)⟩
  · rintro ⟨rfl, rfl⟩
    rfl

theorem update_plain (memory : Memory) (block : Nat) (s t : Fin 32) (q r : Fin 4) (x : UInt64) :
    Function.update memory (block + (plain s r).val) x (block + (plain t q).val) =
      if t = s ∧ q = r then x else memory (block + (plain t q).val) := by
  rw [Function.update_apply]
  refine if_congr ?_ rfl rfl
  rw [Nat.add_left_cancel_iff, ← Fin.ext_iff, plain_inj]

theorem store_apply (b : BlockTh) (memory : Memory) (block : Nat) (s t : Fin 32) (q : Fin 4) :
    b.store memory block s.val (block + (plain t q).val) =
      if t = s then b.getUniform q.val else memory (block + (plain t q).val) := by
  have hstore : b.store memory block s.val =
      Function.update (Function.update (Function.update (Function.update memory
        (block + (plain s 0).val) b.a) (block + (plain s 1).val) b.b)
        (block + (plain s 2).val) b.c) (block + (plain s 3).val) b.d := by
    simp [BlockTh.store, plain, THREADS_PER_LANE, Nat.add_assoc]
  rw [hstore, update_plain, update_plain, update_plain, update_plain]
  by_cases ht : t = s
  · fin_cases q <;> simp [ht, BlockTh.getUniform]
  · simp [ht]

theorem store_outside (b : BlockTh) (memory : Memory) {block a : Nat} (s : Fin 32)
    (h : a < block ∨ block + QWORDS_IN_BLOCK ≤ a) : b.store memory block s.val a = memory a := by
  unfold QWORDS_IN_BLOCK at h
  unfold BlockTh.store THREADS_PER_LANE
  rw [Function.update_of_ne (by omega), Function.update_of_ne (by omega),
    Function.update_of_ne (by omega), Function.update_of_ne (by omega)]

theorem storeBlock_apply {w : Wave BlockTh} {B : Block} (h : Holds plain w B) (memory : Memory)
    (block : Nat) : blockAt (storeBlock w memory block) block = B := by
  have hfold : ∀ (lanes : List (Fin 32)) (memory : Memory) (t : Fin 32) (q : Fin 4),
      lanes.foldl (fun m s => (w s).store m block s.val) memory (block + (plain t q).val) =
        if t ∈ lanes then B (plain t q) else memory (block + (plain t q).val) := by
    intro lanes
    induction lanes with
    | nil => simp
    | cons s lanes ih =>
      intro memory t q
      rw [List.foldl_cons, ih, store_apply]
      by_cases hmem : t ∈ lanes
      · simp [hmem]
      · by_cases hs : t = s
        · subst hs
          simp [hmem, h t q]
        · simp [hmem, hs]
  funext i
  have hi : i = plain ⟨i.val % 32, by omega⟩ ⟨i.val / 32, by omega⟩ :=
    Fin.ext (by simp only [plain]; omega)
  unfold blockAt storeBlock
  rw [hi, hfold, if_pos (List.mem_finRange _)]

theorem storeBlock_outside (w : Wave BlockTh) (memory : Memory) {block a : Nat}
    (h : a < block ∨ block + QWORDS_IN_BLOCK ≤ a) : storeBlock w memory block a = memory a := by
  unfold storeBlock
  induction List.finRange 32 generalizing memory with
  | nil => rfl
  | cons s lanes ih => rw [List.foldl_cons, ih, store_outside _ _ s h]

/-- The work-items load a block, shuffle it in lockstep and store it: the block is permuted,
and no other word of the memory changes. -/
theorem shuffleBlock_permutes (memory : Memory) (src dst : Nat) :
    let stored := storeBlock (shuffleBlock fun t => .load memory src t.val) memory dst
    blockAt stored dst = permute (blockAt memory src) ∧
      ∀ a, a < dst ∨ dst + QWORDS_IN_BLOCK ≤ a → stored a = memory a :=
  ⟨storeBlock_apply (shuffleBlock_holds (load_holds memory src)) memory dst,
    fun _ => storeBlock_outside _ memory⟩

/-! ## The addresses -/

/-- The words the work-items put into the first register of an address block. -/
def inputs (slice counter : Nat) (laneBlocks : UInt32) : Wave UInt32 := fun t =>
  match t.val with
  | 2 => UInt32.ofNat slice
  | 3 => laneBlocks
  | 4 => 1
  | 5 => 2
  | 6 => UInt32.ofNat counter
  | _ => 0

theorem toUInt64_ofNat {n : Nat} (h : n < 2 ^ 32) : (UInt32.ofNat n).toUInt64 = UInt64.ofNat n := by
  apply UInt64.toNat_inj.1
  rw [UInt32.toNat_toUInt64, UInt32.toNat_ofNat_of_lt' h,
    UInt64.toNat_ofNat_of_lt' (lt_of_lt_of_le h (by decide))]

theorem inputs_holds {slice counter : Nat} {laneBlocks : UInt32} (hslice : slice < 4)
    (hcounter : counter < 2 ^ 32) :
    Holds plain (fun t => ⟨(inputs slice counter laneBlocks t).toUInt64, 0, 0, 0⟩)
      (inputBlock slice laneBlocks.toNat counter) := by
  have hs := @toUInt64_ofNat slice (by omega)
  have hc := toUInt64_ofNat hcounter
  have hl : laneBlocks.toUInt64 = UInt64.ofNat laneBlocks.toNat := by
    apply UInt64.toNat_inj.1
    simp
  have hrest : ∀ (t : Fin 32) (q : Fin 4), q ≠ 0 →
      inputBlock slice laneBlocks.toNat counter (plain t q) = 0 := by
    intro t q hq
    fin_cases q
    · exact absurd rfl hq
    · fin_cases t <;> rfl
    · fin_cases t <;> rfl
    · fin_cases t <;> rfl
  intro t q
  by_cases hq : q = 0
  · subst hq
    fin_cases t <;> first | rfl | exact hs | exact hc | exact hl
  · rw [hrest t q hq]
    fin_cases q
    · exact absurd rfl hq
    · rfl
    · rfl
    · rfl

theorem nextAddresses_holds {slice counter : Nat} {laneBlocks : UInt32} (hslice : slice < 4)
    (hcounter : counter < 2 ^ 32) :
    Holds plain (nextAddresses (inputs slice counter laneBlocks))
      (addressBlock slice laneBlocks.toNat counter) := by
  have hin := @inputs_holds slice counter laneBlocks hslice hcounter
  have hfirst := (shuffleBlock_holds hin).xor hin
  have hsecond := (shuffleBlock_holds hfirst).xor hfirst
  have hfirstWord : ∀ (b : BlockTh) (x : UInt64),
      { b with a := b.a ^^^ x } = b.xor ⟨x, 0, 0, 0⟩ := by
    intro b x
    simp [BlockTh.xor]
  unfold addressBlock nextAddresses
  rw [compress_zero, compress_zero]
  simp only [hfirstWord]
  exact hsecond

theorem toNat_umulhi (x y : UInt32) : (umulhi x y).toNat = x.toNat * y.toNat / 2 ^ 32 := by
  have hlt : x.toNat * y.toNat < 2 ^ 64 :=
    Nat.mul_lt_mul'' (c := 2 ^ 32) (d := 2 ^ 32) x.toNat_lt y.toNat_lt
  have hdiv : x.toNat * y.toNat / 2 ^ 32 < 2 ^ 32 := Nat.div_lt_of_lt_mul hlt
  unfold umulhi
  rw [UInt64.toNat_toUInt32, UInt64.toNat_shiftRight, UInt64.toNat_mul, UInt32.toNat_toUInt64,
    UInt32.toNat_toUInt64, Nat.mod_eq_of_lt hlt]
  change (x.toNat * y.toNat) >>> 32 % 2 ^ 32 = _
  rw [Nat.shiftRight_eq_div_pow, Nat.mod_eq_of_lt hdiv]

theorem computeRefPos_eq {segmentBlocks : UInt32} {slice offset : Nat} (r : UInt32)
    (hlow : 2 ≤ slice * segmentBlocks.toNat + offset)
    (hhigh : slice * segmentBlocks.toNat + offset < 2 ^ 32) (hslice : slice < 4) :
    (computeRefPos segmentBlocks (UInt32.ofNat slice) (UInt32.ofNat offset) r).toNat =
      refIndex (slice * segmentBlocks.toNat + offset - 1) r.toNat := by
  have hoffset : offset < 2 ^ 32 := by omega
  have hsmall : slice < 2 ^ 32 := by omega
  have hone : (1 : UInt32).toNat = 1 := rfl
  have hsum : (UInt32.ofNat slice * segmentBlocks + UInt32.ofNat offset).toNat =
      slice * segmentBlocks.toNat + offset := by
    rw [UInt32.toNat_add, UInt32.toNat_mul, UInt32.toNat_ofNat_of_lt' hsmall,
      UInt32.toNat_ofNat_of_lt' hoffset, Nat.mod_add_mod, Nat.mod_eq_of_lt hhigh]
  have harea : (UInt32.ofNat slice * segmentBlocks + UInt32.ofNat offset - 1).toNat =
      slice * segmentBlocks.toNat + offset - 1 := by
    rw [UInt32.toNat_sub_of_le _ _ (UInt32.le_iff_toNat_le.2 (by omega)), hsum, hone]
  unfold computeRefPos refIndex
  dsimp only
  generalize UInt32.ofNat slice * segmentBlocks + UInt32.ofNat offset - 1 = area at harea
  rw [← harea]
  have hindex : r.toNat * r.toNat / 2 ^ 32 < 2 ^ 32 :=
    Nat.div_lt_of_lt_mul (Nat.mul_lt_mul'' (c := 2 ^ 32) (d := 2 ^ 32) r.toNat_lt r.toNat_lt)
  have hy : area.toNat * (r.toNat * r.toNat / 2 ^ 32) / 2 ^ 32 < area.toNat := by
    apply Nat.div_lt_of_lt_mul
    rw [Nat.mul_comm]
    exact Nat.mul_lt_mul_of_pos_right hindex (by omega)
  have hpos : (area - 1).toNat = area.toNat - 1 := by
    rw [UInt32.toNat_sub_of_le _ _ (UInt32.le_iff_toNat_le.2 (by omega)), hone]
  have hmul : (umulhi area (umulhi r r)).toNat =
      area.toNat * (r.toNat * r.toNat / 2 ^ 32) / 2 ^ 32 := by
    rw [toNat_umulhi, toNat_umulhi]
  rw [UInt32.toNat_sub_of_le _ _ (UInt32.le_iff_toNat_le.2 (by omega)), hpos, hmul]

/-! ## The invariant of the loops -/

section Invariant

variable {memory : Memory} {memLane : Nat} {segmentBlocks : UInt32}

/-- The blocks of the lane after `n` of them are filled. -/
def table (memory : Memory) (memLane : Nat) (segmentBlocks : UInt32) : Nat → Nat → Block :=
  fill segmentBlocks.toNat (blockAt memory memLane) (blockAt memory (memLane + QWORDS_IN_BLOCK))

/-- `n` blocks are filled, the last block is in registers, and nothing else has changed. -/
structure Filled (memory : Memory) (memLane : Nat) (segmentBlocks : UInt32) (n : Nat) (s : State) :
    Prop where
  curr : s.memCurr = memLane + (n + 2) * QWORDS_IN_BLOCK
  done : ∀ i < n + 2, blockAt s.memory (memLane + i * QWORDS_IN_BLOCK) =
    table memory memLane segmentBlocks n i
  prev : Holds plain s.prev (table memory memLane segmentBlocks n (n + 1))
  rest : ∀ a, a < memLane + 2 * QWORDS_IN_BLOCK ∨ memLane + (n + 2) * QWORDS_IN_BLOCK ≤ a →
    s.memory a = memory a

/-- The word the next reference is drawn from. -/
def drawn (memory : Memory) (memLane : Nat) (segmentBlocks : UInt32) (n : Nat) : UInt64 :=
  refWord segmentBlocks.toNat (table memory memLane segmentBlocks n) (n + 2)

/-- `argon2_core` on the reference all work-items agree on fills the next block. -/
theorem Filled.core {n : Nat} {s : State} {ref : Wave UInt32}
    (h : Filled memory memLane segmentBlocks n s)
    (href : ∀ t, (ref t).toNat =
      refIndex (n + 1) (drawn memory memLane segmentBlocks n).toUInt32.toNat) :
    Filled memory memLane segmentBlocks (n + 1) (advance (argon2Core memLane s ref)) := by
  have hlt : refIndex (n + 1) (drawn memory memLane segmentBlocks n).toUInt32.toNat < n + 1 :=
    refIndex_lt (by omega)
  have hblock : table memory memLane segmentBlocks (n + 1) (n + 2) =
      compress (table memory memLane segmentBlocks n (n + 1)) (table memory memLane segmentBlocks n
        (refIndex (n + 1) (drawn memory memLane segmentBlocks n).toUInt32.toNat)) :=
    fill_succ_self n
  generalize refIndex (n + 1) (drawn memory memLane segmentBlocks n).toUInt32.toNat = r
    at href hlt hblock
  have hload := load_holds s.memory (memLane + r * QWORDS_IN_BLOCK)
  rw [h.done r (by omega)] at hload
  have hxor := h.prev.xor hload
  have hnew := (shuffleBlock_holds hxor).xor hxor
  have hprev : Holds plain (argon2Core memLane s ref).prev
      (table memory memLane segmentBlocks (n + 1) (n + 2)) := by
    rw [hblock]
    unfold argon2Core BlockTh.loadXor
    simp only [href]
    exact hnew
  have hmemory : (argon2Core memLane s ref).memory =
      storeBlock (argon2Core memLane s ref).prev s.memory s.memCurr := rfl
  have hcurr := h.curr
  unfold QWORDS_IN_BLOCK at hcurr
  constructor
  · change s.memCurr + QWORDS_IN_BLOCK = _
    unfold QWORDS_IN_BLOCK
    omega
  · intro i hi
    change blockAt (argon2Core memLane s ref).memory _ = _
    rw [hmemory]
    by_cases hlast : i = n + 2
    · rw [hlast, ← h.curr]
      exact storeBlock_apply hprev _ _
    · have hstable : table memory memLane segmentBlocks (n + 1) i =
          table memory memLane segmentBlocks n i := fill_succ_of_ne hlast
      rw [hstable, ← h.done i (by omega)]
      funext w
      apply storeBlock_outside
      unfold QWORDS_IN_BLOCK
      omega
  · exact hprev
  · intro a ha
    unfold QWORDS_IN_BLOCK at ha
    have hrest : a < memLane + 2 * 128 ∨ memLane + (n + 2) * 128 ≤ a := by grind
    have hout : a < s.memCurr ∨ s.memCurr + 128 ≤ a := by grind
    change (argon2Core memLane s ref).memory a = _
    rw [hmemory, storeBlock_outside _ _ hout]
    exact h.rest a hrest

/-! ## The indexed slices -/

theorem inputs_succ {slice counter : Nat} {laneBlocks : UInt32} :
    (fun t : Fin 32 => if t.val = 6 then inputs slice counter laneBlocks t + 1
      else inputs slice counter laneBlocks t) = inputs slice (counter + 1) laneBlocks := by
  have hsucc : UInt32.ofNat counter + 1 = UInt32.ofNat (counter + 1) := (UInt32.ofNat_add _ _).symm
  funext t
  fin_cases t <;> first | rfl | exact hsucc

/-- Before offset `offset` of a slice: the input counts the address blocks made so far, and
the last of them is held unless a new one is due. -/
structure Addressed (laneBlocks : UInt32) (slice offset : Nat) (s : State) : Prop where
  input : s.threadInput = inputs slice ((offset + 127) / 128) laneBlocks
  held : offset % 128 ≠ 0 →
    Holds plain s.addr (addressBlock slice laneBlocks.toNat (offset / 128 + 1))

theorem Addressed.refresh {laneBlocks : UInt32} {slice offset : Nat} {s : State}
    (h : Addressed laneBlocks slice offset s) (hslice : slice < 4) (hoffset : offset < 2 ^ 32) :
    (refresh s offset).threadInput = inputs slice (offset / 128 + 1) laneBlocks ∧
    Holds plain (refresh s offset).addr
      (addressBlock slice laneBlocks.toNat (offset / 128 + 1)) := by
  unfold Kernel.refresh QWORDS_IN_BLOCK
  by_cases hzero : offset % 128 = 0
  · have hcount : (offset + 127) / 128 = offset / 128 := by omega
    rw [if_pos hzero]
    dsimp only
    rw [h.input, hcount, inputs_succ]
    exact ⟨rfl, nextAddresses_holds hslice (by omega)⟩
  · have hcount : (offset + 127) / 128 = offset / 128 + 1 := by omega
    rw [if_neg hzero, h.input, hcount]
    exact ⟨rfl, h.held hzero⟩

theorem refresh_frame (s : State) (offset : Nat) :
    (refresh s offset).memory = s.memory ∧ (refresh s offset).memCurr = s.memCurr ∧
    (refresh s offset).prev = s.prev := by
  unfold refresh
  split_ifs
  · exact ⟨rfl, rfl, rfl⟩
  · exact ⟨rfl, rfl, rfl⟩

theorem Filled.refresh {n : Nat} {s : State} (h : Filled memory memLane segmentBlocks n s)
    (offset : Nat) : Filled memory memLane segmentBlocks n (refresh s offset) := by
  obtain ⟨hmemory, hcurr, hprev⟩ := refresh_frame s offset
  constructor
  · rw [hcurr]
    exact h.curr
  · rw [hmemory]
    exact h.done
  · rw [hprev]
    exact h.prev
  · rw [hmemory]
    exact h.rest

/-- In the slices 0 and 1 the word drawn is that of the address block. -/
theorem drawn_indexed {slice offset n : Nat} (hn : n + 2 = slice * segmentBlocks.toNat + offset)
    (hoffset : offset < segmentBlocks.toNat) (hslice : slice < 2) :
    drawn memory memLane segmentBlocks n = addressBlock slice (4 * segmentBlocks.toNat)
      (offset / 128 + 1) ⟨offset % 128, Nat.mod_lt _ (by decide)⟩ := by
  have hdiv : (n + 2) / segmentBlocks.toNat = slice := by
    rw [hn, Nat.add_comm, Nat.add_mul_div_right _ _ (by omega), Nat.div_eq_of_lt hoffset,
      Nat.zero_add]
  have hmod : (n + 2) % segmentBlocks.toNat = offset := by
    rw [hn, Nat.add_comm, Nat.add_mul_mod_self_right, Nat.mod_eq_of_lt hoffset]
  unfold drawn refWord
  simp only [hdiv, hmod, if_pos hslice]

/-- In the slices 2 and 3 it is the first word of the block before. -/
theorem drawn_dependent {slice offset n : Nat} (hn : n + 2 = slice * segmentBlocks.toNat + offset)
    (hoffset : offset < segmentBlocks.toNat) (hslice : 2 ≤ slice) :
    drawn memory memLane segmentBlocks n = table memory memLane segmentBlocks n (n + 1) 0 := by
  have hdiv : (n + 2) / segmentBlocks.toNat = slice := by
    rw [hn, Nat.add_comm, Nat.add_mul_div_right _ _ (by omega), Nat.div_eq_of_lt hoffset,
      Nat.zero_add]
  unfold drawn refWord
  rw [hdiv, if_neg (by omega)]
  rfl

/-- A word of a held block, broadcast by a shuffle from the work-item that has it. -/
theorem broadcast {w : Wave BlockTh} {B : Block} (h : Holds plain w B) {i : Nat} (hi : i < 128)
    (t : Fin 32) :
    shfl64 (fun t => (w t).getUniform (i / THREADS_PER_LANE)) (fun _ => i % THREADS_PER_LANE) t =
      B ⟨i, hi⟩ := by
  have hpos : plain ⟨i % 32 % 32, by omega⟩ ⟨i / 32, by omega⟩ = ⟨i, hi⟩ :=
    Fin.ext (by simp only [plain]; omega)
  rw [shfl64_apply, ← hpos]
  exact h ⟨i % 32 % 32, by omega⟩ ⟨i / 32, by omega⟩

section Slices

variable {laneBlocks : UInt32} {slice offset n : Nat} {s : State}

/-- One block of the slices 0 and 1. -/
theorem stepIndexed_filled (hlane : laneBlocks.toNat = 4 * segmentBlocks.toNat)
    (hfit : 4 * segmentBlocks.toNat < 2 ^ 32) (hslice : slice < 2)
    (hoffset : offset < segmentBlocks.toNat) (hn : n + 2 = slice * segmentBlocks.toNat + offset)
    (h : Filled memory memLane segmentBlocks n s) (ha : Addressed laneBlocks slice offset s) :
    Filled memory memLane segmentBlocks (n + 1)
      (advance (argon2StepIndexed memLane segmentBlocks slice offset s)) ∧
    Addressed laneBlocks slice (offset + 1)
      (advance (argon2StepIndexed memLane segmentBlocks slice offset s)) := by
  obtain ⟨hinput, haddr⟩ := ha.refresh (by omega) (by omega)
  constructor
  · apply (h.refresh offset).core
    intro t
    have hsum : slice * segmentBlocks.toNat + offset < 2 ^ 32 := by
      have := Nat.mul_le_mul_right segmentBlocks.toNat (show slice ≤ 1 by omega)
      omega
    have hword := broadcast haddr (i := offset % 128) (by omega) t
    rw [computeRefPos_eq _ (by omega) hsum (by omega), ← hn, drawn_indexed hn hoffset hslice,
      ← hlane, ← hword]
    rfl
  · constructor
    · have hcount : (offset + 1 + 127) / 128 = offset / 128 + 1 := by omega
      rw [hcount]
      exact hinput
    · intro hne
      have hcount : (offset + 1) / 128 = offset / 128 := by omega
      rw [hcount]
      exact haddr

/-- One block of the slices 2 and 3. -/
theorem stepDependent_filled (hfit : 4 * segmentBlocks.toNat < 2 ^ 32) (hlow : 2 ≤ slice)
    (hhigh : slice < 4) (hoffset : offset < segmentBlocks.toNat)
    (hn : n + 2 = slice * segmentBlocks.toNat + offset)
    (h : Filled memory memLane segmentBlocks n s) :
    Filled memory memLane segmentBlocks (n + 1)
      (advance (argon2StepDependent memLane segmentBlocks slice offset s)) := by
  apply h.core
  intro t
  have hsum : slice * segmentBlocks.toNat + offset < 2 ^ 32 := by
    have := Nat.mul_le_mul_right segmentBlocks.toNat (show slice ≤ 3 by omega)
    omega
  have hword := broadcast h.prev (i := 0) (by omega) t
  rw [computeRefPos_eq _ (by omega) hsum hhigh, ← hn, drawn_dependent hn hoffset hlow]
  exact congrArg (fun x : UInt64 => refIndex (n + 1) x.toUInt32.toNat) hword

theorem indexedSlice_filled {first : Nat} (hlane : laneBlocks.toNat = 4 * segmentBlocks.toNat)
    (hfit : 4 * segmentBlocks.toNat < 2 ^ 32) (hslice : slice < 2)
    (hfirst : first ≤ segmentBlocks.toNat) (hn : n + 2 = slice * segmentBlocks.toNat + first)
    (h : Filled memory memLane segmentBlocks n s) (ha : Addressed laneBlocks slice first s) :
    ∃ m, m + 2 = slice * segmentBlocks.toNat + segmentBlocks.toNat ∧
      Filled memory memLane segmentBlocks m (indexedSlice memLane segmentBlocks slice first s) ∧
      Addressed laneBlocks slice segmentBlocks.toNat
        (indexedSlice memLane segmentBlocks slice first s) := by
  have hend : first + (segmentBlocks.toNat - first) = segmentBlocks.toNat := by omega
  have hloop := @foldl_range'_inv State
    (fun offset s => ∃ m, m + 2 = slice * segmentBlocks.toNat + offset ∧
      Filled memory memLane segmentBlocks m s ∧ Addressed laneBlocks slice offset s)
    (fun s offset => advance (argon2StepIndexed memLane segmentBlocks slice offset s)) first
    (segmentBlocks.toNat - first) s ?_ ⟨n, hn, h, ha⟩
  · rw [hend] at hloop
    exact hloop
  · rintro offset s - hoffset ⟨m, hm, h, ha⟩
    exact ⟨m + 1, by omega, stepIndexed_filled hlane hfit hslice (by omega) hm h ha⟩

theorem dependentSlice_filled (hfit : 4 * segmentBlocks.toNat < 2 ^ 32) (hlow : 2 ≤ slice)
    (hhigh : slice < 4) (hn : n + 2 = slice * segmentBlocks.toNat)
    (h : Filled memory memLane segmentBlocks n s) :
    ∃ m, m + 2 = slice * segmentBlocks.toNat + segmentBlocks.toNat ∧
      Filled memory memLane segmentBlocks m (dependentSlice memLane segmentBlocks slice s) := by
  have hloop := @foldl_range'_inv State
    (fun offset s => ∃ m, m + 2 = slice * segmentBlocks.toNat + offset ∧
      Filled memory memLane segmentBlocks m s)
    (fun s offset => advance (argon2StepDependent memLane segmentBlocks slice offset s)) 0
    segmentBlocks.toNat s ?_ ⟨n, hn, h⟩
  · rw [Nat.zero_add] at hloop
    exact hloop
  · rintro offset s - hoffset ⟨m, hm, h⟩
    exact ⟨m + 1, by omega, stepDependent_filled hfit hlow hhigh (by omega) hm h⟩

end Slices

/-! ## The kernel -/

theorem start_filled (laneBlocks : UInt32) :
    Filled memory memLane segmentBlocks 0 (start memory memLane laneBlocks) := by
  constructor
  · rfl
  · intro i hi
    rcases Nat.le_one_iff_eq_zero_or_eq_one.1 (Nat.lt_succ_iff.1 hi) with rfl | rfl
    · simp [table, fill, start]
    · simp [table, fill, start]
  · exact load_holds _ _
  · intro a _
    rfl

theorem start_addressed (laneBlocks : UInt32) :
    Addressed laneBlocks 0 2 (start memory memLane laneBlocks) := by
  have hinput : (start memory memLane laneBlocks).threadInput = inputs 0 1 laneBlocks := by
    funext t
    fin_cases t <;> first | rfl | simp [start, inputs]
  have haddr : (start memory memLane laneBlocks).addr =
      nextAddresses (start memory memLane laneBlocks).threadInput := rfl
  constructor
  · exact hinput
  · intro _
    rw [haddr, hinput]
    exact nextAddresses_holds (by decide) (by decide)

theorem Filled.restart {n : Nat} {s : State} (h : Filled memory memLane segmentBlocks n s) :
    Filled memory memLane segmentBlocks n (restart s) :=
  ⟨h.curr, h.done, h.prev, h.rest⟩

theorem restart_addressed {laneBlocks : UInt32} {offset : Nat} {s : State}
    (h : Addressed laneBlocks 0 offset s) : Addressed laneBlocks 1 0 (restart s) := by
  constructor
  · unfold restart
    rw [h.input]
    funext t
    fin_cases t <;> rfl
  · intro hne
    exact absurd rfl hne

end Invariant

/-- The kernel fills the lane of its job as Argon2id does from the same two blocks, and
writes nothing else. -/
theorem oneshot_fills (memory : Memory) (jobId : Nat) (segmentBlocks : UInt32)
    (hseg : 2 ≤ segmentBlocks.toNat) (hfit : 4 * segmentBlocks.toNat < 2 ^ 32) :
    let memLane := jobId * (4 * segmentBlocks.toNat) * QWORDS_IN_BLOCK
    let final := argon2KernelOneshot memory jobId segmentBlocks
    (∀ i < 4 * segmentBlocks.toNat, blockAt final (memLane + i * QWORDS_IN_BLOCK) =
      Argon2.blocks segmentBlocks.toNat (blockAt memory memLane)
        (blockAt memory (memLane + QWORDS_IN_BLOCK)) i) ∧
    ∀ a, a < memLane + 2 * QWORDS_IN_BLOCK ∨
      memLane + 4 * segmentBlocks.toNat * QWORDS_IN_BLOCK ≤ a → final a = memory a := by
  intro memLane final
  have hlane : (ARGON2_SYNC_POINTS * segmentBlocks).toNat = 4 * segmentBlocks.toNat := by
    rw [UInt32.toNat_mul, Nat.mod_eq_of_lt]
    · rfl
    · exact hfit
  have hstart := @start_filled memory memLane segmentBlocks (ARGON2_SYNC_POINTS * segmentBlocks)
  have haddr := @start_addressed memory memLane (ARGON2_SYNC_POINTS * segmentBlocks)
  obtain ⟨n0, hn0, h0, ha0⟩ := indexedSlice_filled hlane hfit (by decide) hseg (by omega)
    hstart haddr
  obtain ⟨n1, hn1, h1, -⟩ := indexedSlice_filled hlane hfit (by decide) (Nat.zero_le _) (by omega)
    h0.restart (restart_addressed ha0)
  obtain ⟨n2, hn2, h2⟩ := dependentSlice_filled hfit (show 2 ≤ 2 by decide) (by decide)
    (by omega) h1
  obtain ⟨n3, hn3, h3⟩ := dependentSlice_filled hfit (show 2 ≤ 3 by decide) (by decide)
    (by omega) h2
  have hn : n3 + 2 = 4 * segmentBlocks.toNat := by omega
  have hmemLane :
      jobId * (ARGON2_SYNC_POINTS * segmentBlocks).toNat * QWORDS_IN_BLOCK = memLane := by
    rw [hlane]
  have hfinal : final = (dependentSlice memLane segmentBlocks 3
      (dependentSlice memLane segmentBlocks 2 (indexedSlice memLane segmentBlocks 1 0
        (restart (indexedSlice memLane segmentBlocks 0 2
          (start memory memLane (ARGON2_SYNC_POINTS * segmentBlocks))))))).memory := by
    rw [← hmemLane]
    rfl
  rw [hfinal]
  constructor
  · intro i hi
    have hn3 : n3 = 4 * segmentBlocks.toNat - 2 := by omega
    rw [h3.done i (by omega), hn3]
    rfl
  · intro a ha
    rw [← hn] at ha
    exact h3.rest a ha

/-- Two jobs of eight blocks each, all zero: the second lane is filled. -/
theorem oneshot_fills_second_job :
    (2 ≤ (2 : UInt32).toNat ∧ 4 * (2 : UInt32).toNat < 2 ^ 32) ∧
    ∀ i < 8, blockAt (argon2KernelOneshot (fun _ => 0) 1 2) (1024 + i * 128) =
      Argon2.blocks 2 (fun _ => 0) (fun _ => 0) i :=
  ⟨by decide, (oneshot_fills (fun _ => 0) 1 2 (by decide) (by decide)).1⟩

end TreeMiner.Kernel
