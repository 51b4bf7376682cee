import TreeMiner.Lib.Blake2b

/-! The BLAKE2b of the device, which is fed by `update` calls: whatever pieces a message
comes in, it is the hash of the message. -/

namespace TreeMiner.Kernel

open Lib
open Lib.Argon2 (rotr)

/-- What a byte pointer shows: private scratch or a device buffer, from the pointer on. -/
abbrev Bytes := Nat → UInt8

def BLAKE2B_BLOCK_BYTES : Nat := 128

def BLAKE2B_OUT_BYTES : Nat := 64

def BLAKE2B_IV : Vector UInt64 8 := #v[0x6a09e667f3bcc908, 0xbb67ae8584caa73b,
  0x3c6ef372fe94f82b, 0xa54ff53a5f1d36f1, 0x510e527fade682d1, 0x9b05688c2b3e6c1f,
  0x1f83d9abfb41bd6b, 0x5be0cd19137e2179]

def BLAKE2B_SIGMA : Vector (Vector (Fin 16) 16) 12 := #v[
  #v[0, 1, 2, 3, 4, 5, 6, 7, 8, 9, 10, 11, 12, 13, 14, 15],
  #v[14, 10, 4, 8, 9, 15, 13, 6, 1, 12, 0, 2, 11, 7, 5, 3],
  #v[11, 8, 12, 0, 5, 2, 15, 13, 10, 14, 3, 6, 7, 1, 9, 4],
  #v[7, 9, 3, 1, 13, 12, 11, 14, 2, 6, 5, 10, 4, 0, 15, 8],
  #v[9, 0, 5, 7, 2, 4, 10, 15, 14, 1, 11, 12, 6, 8, 3, 13],
  #v[2, 12, 6, 10, 0, 11, 8, 3, 4, 13, 7, 5, 15, 14, 1, 9],
  #v[12, 5, 1, 15, 14, 13, 4, 10, 0, 7, 6, 3, 9, 2, 8, 11],
  #v[13, 11, 7, 14, 12, 1, 3, 9, 5, 0, 15, 4, 8, 6, 2, 10],
  #v[6, 15, 14, 9, 11, 3, 0, 8, 12, 2, 13, 7, 1, 4, 10, 5],
  #v[10, 2, 8, 4, 7, 6, 1, 5, 15, 11, 9, 14, 3, 12, 13, 0],
  #v[0, 1, 2, 3, 4, 5, 6, 7, 8, 9, 10, 11, 12, 13, 14, 15],
  #v[14, 10, 4, 8, 9, 15, 13, 6, 1, 12, 0, 2, 11, 7, 5, 3]]

/-! ## Bytes and words -/

/-- `for index in 0..n { dst.add(index).write(src.add(index).read()) }` -/
def copy (mem : Bytes) (dst : Nat) (src : Bytes) (n : Nat) : Bytes :=
  (List.range n).foldl (fun mem index => Function.update mem (dst + index) (src index)) mem

def store32 (mem : Bytes) (dst : Nat) (value : UInt32) : Bytes :=
  copy mem dst (fun index => (value >>> UInt32.ofNat (8 * index)).toUInt8) 4

def store64 (mem : Bytes) (dst : Nat) (value : UInt64) : Bytes :=
  copy mem dst (fun index => (value >>> UInt64.ofNat (8 * index)).toUInt8) 8

def load64 (src : Bytes) : UInt64 :=
  (List.range 8).foldl
    (fun value index => value ||| ((src index).toUInt64 <<< UInt64.ofNat (8 * index))) 0

/-! ## The state -/

/-- `Blake2bDeviceState`, one per work-item. -/
structure Blake2b where
  h : Vector UInt64 8
  t0 : UInt64
  t1 : UInt64
  buf : Bytes
  bufLen : UInt32

def blakeG (m : Vector UInt64 16) (r : Fin 12) (i : Fin 8) (v : Vector UInt64 16)
    (a b c d : Fin 16) : Vector UInt64 16 :=
  let v := v.set a (v[a] + v[b] + m[(BLAKE2B_SIGMA.get r)[2 * i.val]])
  let v := v.set d (rotr (v[d] ^^^ v[a]) 32)
  let v := v.set c (v[c] + v[d])
  let v := v.set b (rotr (v[b] ^^^ v[c]) 24)
  let v := v.set a (v[a] + v[b] + m[(BLAKE2B_SIGMA.get r)[2 * i.val + 1]])
  let v := v.set d (rotr (v[d] ^^^ v[a]) 16)
  let v := v.set c (v[c] + v[d])
  v.set b (rotr (v[b] ^^^ v[c]) 63)

def blakeRound (m v : Vector UInt64 16) (r : Fin 12) : Vector UInt64 16 :=
  let v := blakeG m r 0 v 0 4 8 12
  let v := blakeG m r 1 v 1 5 9 13
  let v := blakeG m r 2 v 2 6 10 14
  let v := blakeG m r 3 v 3 7 11 15
  let v := blakeG m r 4 v 0 5 10 15
  let v := blakeG m r 5 v 1 6 11 12
  let v := blakeG m r 6 v 2 7 8 13
  blakeG m r 7 v 3 4 9 14

namespace Blake2b

/-- No key, fanout 1, depth 1. -/
def init (outLen : UInt32) : Blake2b where
  h := BLAKE2B_IV.set 0
    (BLAKE2B_IV[0] ^^^ (outLen.toUInt64 ||| ((1 : UInt64) <<< 16) ||| ((1 : UInt64) <<< 24)))
  t0 := 0
  t1 := 0
  buf := fun _ => 0
  bufLen := 0

def incrementCounter (self : Blake2b) (inc : UInt64) : Blake2b :=
  let t0 := self.t0 + inc
  { self with t0, t1 := self.t1 + (if t0 < inc then 1 else 0) }

def compress (self : Blake2b) (block : Bytes) (f0 : UInt64) : Blake2b :=
  let m : Vector UInt64 16 := Vector.ofFn fun index => load64 fun i => block (8 * index + i)
  let v : Vector UInt64 16 := self.h ++ BLAKE2B_IV
  let v := v.set 12 (v[12] ^^^ self.t0)
  let v := v.set 13 (v[13] ^^^ self.t1)
  let v := v.set 14 (v[14] ^^^ f0)
  let v := (List.finRange 12).foldl (blakeRound m) v
  { self with h := Vector.ofFn fun index => self.h[index] ^^^ (v[index.val] ^^^ v[index.val + 8]) }

/-- The loop over the blocks of the input that are not the last. -/
def drain (self : Blake2b) (input : Bytes) (inputLen : UInt32) : Blake2b × Bytes × UInt32 :=
  if BLAKE2B_BLOCK_BYTES < inputLen.toNat then
    drain ((self.incrementCounter 128).compress input 0)
      (fun index => input (BLAKE2B_BLOCK_BYTES + index)) (inputLen - 128)
  else (self, input, inputLen)
termination_by inputLen.toNat
decreasing_by
  have hle : (128 : UInt32) ≤ inputLen := by
    rw [UInt32.le_iff_toNat_le]
    unfold BLAKE2B_BLOCK_BYTES at *
    exact Nat.le_of_lt ‹_›
  rw [UInt32.toNat_sub_of_le _ _ hle]
  have : (128 : UInt32).toNat = 128 := rfl
  unfold BLAKE2B_BLOCK_BYTES at *
  omega

/-- The branch of `update` that fills the buffer up and hashes it. -/
def flush (self : Blake2b) (input : Bytes) (inputLen : UInt32) : Blake2b × Bytes × UInt32 :=
  let filled := self.bufLen.toNat
  let left := BLAKE2B_BLOCK_BYTES - filled
  let self := { self with buf := copy self.buf filled input left }
  let self := (self.incrementCounter 128).compress self.buf 0
  let self := { self with bufLen := 0 }
  drain self (fun index => input (left + index)) (inputLen - UInt32.ofNat left)

/-- The rest of the input goes into the buffer. -/
def keep (self : Blake2b) (input : Bytes) (inputLen : UInt32) : Blake2b :=
  { self with
    buf := copy self.buf self.bufLen.toNat input inputLen.toNat
    bufLen := self.bufLen + inputLen }

/-- The last full block stays in the buffer. -/
def update (self : Blake2b) (input : Bytes) (inputLen : UInt32) : Blake2b :=
  if BLAKE2B_BLOCK_BYTES < self.bufLen.toNat + inputLen.toNat then
    let (self, input, inputLen) := self.flush input inputLen
    self.keep input inputLen
  else self.keep input inputLen

/-- The last block: what is in the buffer, padded with zeros and flagged. -/
def closeBlock (self : Blake2b) : Blake2b :=
  let self := self.incrementCounter self.bufLen.toUInt64
  let buf := copy self.buf self.bufLen.toNat (fun _ => 0)
    (BLAKE2B_BLOCK_BYTES - self.bufLen.toNat)
  let self := { self with buf }
  self.compress self.buf 0xffffffffffffffff

/-- `finalize`: the digest written at `out`. -/
def finalize (self : Blake2b) (mem : Bytes) (out : Nat) (outLen : UInt32) : Bytes :=
  let self := self.closeBlock
  let buffer := (List.finRange 8).foldl
    (fun buffer index => store64 buffer (8 * index.val) self.h[index]) (fun _ => 0)
  copy mem out buffer outLen.toNat

end Blake2b

/-! ## Bytes and words -/

theorem copy_apply (mem : Bytes) (dst : Nat) (src : Bytes) (n a : Nat) :
    copy mem dst src n a = if dst ≤ a ∧ a < dst + n then src (a - dst) else mem a := by
  unfold copy
  induction n with
  | zero =>
    rw [if_neg (by omega)]
    rfl
  | succ n ih =>
    rw [List.range_succ, List.foldl_append, List.foldl_cons, List.foldl_nil, Function.update_apply,
      ih]
    by_cases ha : a = dst + n
    · rw [if_pos ha, if_pos (by omega), show a - dst = n by omega]
    · rw [if_neg ha]
      by_cases hin : dst ≤ a ∧ a < dst + n
      · rw [if_pos hin, if_pos (by omega)]
      · rw [if_neg hin, if_neg (by omega)]

theorem ofDigits_range_lt (src : Bytes) (n : Nat) :
    Nat.ofDigits 256 ((List.range n).map fun j => (src j).toNat) < 256 ^ n := by
  have h := Nat.ofDigits_lt_base_pow_length (b := 256)
    (l := (List.range n).map fun j => (src j).toNat) (by decide) fun x hx => by
      obtain ⟨j, -, rfl⟩ := List.mem_map.1 hx
      exact (src j).toNat_lt
  rwa [List.length_map, List.length_range] at h

/-- Bytes put together from the low end are the digits of a number. -/
theorem load_toNat (src : Bytes) {n : Nat} (hn : n ≤ 8) :
    ((List.range n).foldl
      (fun value index => value ||| ((src index).toUInt64 <<< UInt64.ofNat (8 * index))) 0).toNat =
      Nat.ofDigits 256 ((List.range n).map fun j => (src j).toNat) := by
  induction n with
  | zero => rfl
  | succ n ih =>
    have hlt := ofDigits_range_lt src n
    have hbyte := (src n).toNat_lt
    have hpow : (256 : Nat) ^ n = 2 ^ (8 * n) := by rw [Nat.pow_mul]
    have hshift : (UInt64.ofNat (8 * n)).toNat % 64 = 8 * n := by
      rw [UInt64.toNat_ofNat']
      omega
    have hfit : (src n).toNat * 2 ^ (8 * n) < 2 ^ 64 := by
      calc (src n).toNat * 2 ^ (8 * n) < 2 ^ 8 * 2 ^ (8 * n) :=
            Nat.mul_lt_mul_of_pos_right hbyte (Nat.two_pow_pos _)
        _ = 2 ^ (8 + 8 * n) := (Nat.pow_add ..).symm
        _ ≤ 2 ^ 64 := Nat.pow_le_pow_right (by decide) (by omega)
    rw [List.range_succ, List.foldl_append, List.map_append, Nat.ofDigits_append, List.foldl_cons,
      List.foldl_nil, UInt64.toNat_or, ih (by omega), UInt64.toNat_shiftLeft, UInt8.toNat_toUInt64,
      hshift, Nat.shiftLeft_eq, Nat.mod_eq_of_lt hfit, List.length_map, List.length_range]
    rw [hpow] at hlt ⊢
    rw [List.map_singleton, Nat.ofDigits_singleton, Nat.or_comm, Nat.mul_comm,
      ← Nat.two_pow_add_eq_or_of_lt hlt, Nat.add_comm]

theorem load64_eq_word (block : Bytes) (k : Nat) :
    load64 (fun i => block (8 * k + i)) = Lib.Blake2b.word block k := by
  rw [← UInt64.toNat_inj]
  unfold load64 Lib.Blake2b.word
  rw [load_toNat _ (le_refl 8), UInt64.toNat_ofNat', Nat.mod_eq_of_lt]
  exact ofDigits_range_lt (fun i => block (8 * k + i)) 8

namespace Blake2b

/-! ## One block -/

theorem sigma_eq : ∀ r : Fin 12,
    BLAKE2B_SIGMA.get r = Lib.Blake2b.SIGMA.get ⟨r.val % 10, Nat.mod_lt _ (by decide)⟩ := by
  decide

theorem blakeG_eq (m : Vector UInt64 16) (r : Fin 12) (i : Fin 8) (v : Vector UInt64 16)
    (a b c d : Fin 16) : blakeG m r i v a b c d = Lib.Blake2b.G v a b c d
      m[(BLAKE2B_SIGMA.get r)[2 * i.val]] m[(BLAKE2B_SIGMA.get r)[2 * i.val + 1]] := rfl

theorem blakeRound_eq (m : Vector UInt64 16) : blakeRound m = fun v r =>
    Lib.Blake2b.round m (Lib.Blake2b.SIGMA.get ⟨r.val % 10, Nat.mod_lt _ (by decide)⟩) v := by
  funext v r
  rw [← sigma_eq]
  unfold blakeRound Lib.Blake2b.round
  simp only [blakeG_eq]
  -- what is left to compare are the positions in the row
  generalize Lib.Blake2b.G = g
  rfl

theorem init_h {outLen : UInt32} (h : outLen.toNat ≤ 64) :
    (init outLen).h = Lib.Blake2b.init outLen.toNat := by
  have hbits : ∀ n ≤ 64, (UInt64.ofNat n ||| ((1 : UInt64) <<< 16) ||| ((1 : UInt64) <<< 24)) =
      0x01010000 ^^^ UInt64.ofNat n := by decide
  have hofNat : outLen.toUInt64 = UInt64.ofNat outLen.toNat := by
    rw [← UInt64.toNat_inj, UInt64.toNat_ofNat', UInt32.toNat_toUInt64]
    omega
  unfold init Lib.Blake2b.init
  dsimp only
  rw [hofNat, hbits _ h]
  rfl

/-- The counter of a state is that of the bytes hashed so far, in two words. -/
structure Counts (b : Blake2b) (n : Nat) : Prop where
  low : b.t0 = UInt64.ofNat n
  high : b.t1 = UInt64.ofNat (n / 2 ^ 64)

theorem Counts.increment {b : Blake2b} {n : Nat} (h : b.Counts n) (inc : UInt64) :
    (b.incrementCounter inc).Counts (n + inc.toNat) := by
  have hinc := inc.toNat_lt
  have hlow : b.t0 + inc = UInt64.ofNat (n + inc.toNat) := by
    rw [h.low, UInt64.ofNat_add, UInt64.ofNat_toNat]
  have hcarry : b.t0 + inc < inc ↔ 2 ^ 64 ≤ n % 2 ^ 64 + inc.toNat := by
    rw [hlow, UInt64.lt_iff_toNat_lt, UInt64.toNat_ofNat']
    omega
  refine ⟨hlow, ?_⟩
  change b.t1 + (if b.t0 + inc < inc then 1 else 0) = _
  rw [h.high, if_congr hcarry rfl rfl]
  split_ifs with hc
  · rw [show (n + inc.toNat) / 2 ^ 64 = n / 2 ^ 64 + 1 by omega, UInt64.ofNat_add]
    rfl
  · rw [show (n + inc.toNat) / 2 ^ 64 = n / 2 ^ 64 by omega, UInt64.add_zero]

theorem compress_h {b : Blake2b} {t : Nat} (hcount : b.Counts t) (block : Bytes) (last : Bool) :
    (b.compress block (if last then 0xffffffffffffffff else 0)).h =
      Lib.Blake2b.F b.h (Vector.ofFn fun k => Lib.Blake2b.word block k) t last := by
  have hstart : ∀ (v : Vector UInt64 16),
      v.set 14 (v[14] ^^^ (if last then 0xffffffffffffffff else 0)) =
        if last then v.set 14 (v[14] ^^^ 0xffffffffffffffff) else v := by
    intro v
    cases last with
    | true => rfl
    | false => simp
  unfold compress Lib.Blake2b.F Lib.Blake2b.start
  have hiv : BLAKE2B_IV = Lib.Blake2b.IV := rfl
  simp only [load64_eq_word, hcount.low, hcount.high, hstart, blakeRound_eq, UInt64.xor_assoc, hiv]
  rfl

/-! ## Pieces of a message -/

/-- The bytes behind a pointer. -/
def bytesOf (ptr : Bytes) (n : Nat) : List UInt8 := (List.range n).map ptr

/-- Behind `k` blocks of a message that is not finished. -/
structure Chained (b : Blake2b) (outLen : Nat) (msg : List UInt8) (k : Nat) : Prop where
  h : b.h = Lib.Blake2b.chain outLen msg k
  counts : b.Counts (128 * k)

/-- A pointer to what follows the first `n` bytes of a message. -/
def PointsAt (ptr : Bytes) (msg : List UInt8) (n : Nat) : Prop :=
  ∀ j, n + j < msg.length → ptr j = msg.getD (n + j) 0

/-- A full block that is not the last is compressed with the count behind it. -/
theorem Chained.compress {b : Blake2b} {outLen k : Nat} {msg : List UInt8}
    (h : b.Chained outLen msg k) {block : Bytes}
    (hblock : ∀ j < 128, block j = msg.getD (128 * k + j) 0) :
    ((b.incrementCounter 128).compress block 0).Chained outLen msg (k + 1) := by
  have hcount : (b.incrementCounter 128).Counts (128 * (k + 1)) := h.counts.increment 128
  refine ⟨?_, hcount.low, hcount.high⟩
  rw [show ((b.incrementCounter 128).compress block 0).h = _ from compress_h hcount block false,
    Lib.Blake2b.block_of_bytes hblock, Lib.Blake2b.chain, ← h.h]
  rfl

/-- The state behind an unfinished message: the last block, full or not, is in the buffer. -/
structure Absorbed (b : Blake2b) (outLen : Nat) (msg : List UInt8) : Prop where
  chained : b.Chained outLen msg (Lib.Blake2b.fullBlocks msg.length)
  bufLen : b.bufLen.toNat + 128 * Lib.Blake2b.fullBlocks msg.length = msg.length
  buf : ∀ j < b.bufLen.toNat,
    b.buf j = msg.getD (128 * Lib.Blake2b.fullBlocks msg.length + j) 0

theorem init_absorbed {outLen : UInt32} (h : outLen.toNat ≤ 64) :
    (init outLen).Absorbed outLen.toNat [] :=
  ⟨⟨init_h h, rfl, rfl⟩, rfl, fun j hj => absurd hj (Nat.not_lt_zero j)⟩

/-- The loop leaves one block at most, and one byte at least. -/
theorem drain_chained {b : Blake2b} {outLen k : Nat} {msg : List UInt8} {input : Bytes}
    {inputLen : UInt32} (h : b.Chained outLen msg k) (hinput : PointsAt input msg (128 * k))
    (hlen : 128 * k + inputLen.toNat = msg.length) (hpos : 0 < inputLen.toNat) :
    let r := b.drain input inputLen
    r.1.Chained outLen msg (Lib.Blake2b.fullBlocks msg.length) ∧ r.1.bufLen = b.bufLen ∧
      PointsAt r.2.1 msg (128 * Lib.Blake2b.fullBlocks msg.length) ∧
      128 * Lib.Blake2b.fullBlocks msg.length + r.2.2.toNat = msg.length := by
  induction b, input, inputLen using drain.induct generalizing k with
  | case1 b input inputLen hlong ih =>
    have hlong' : 128 < inputLen.toNat := hlong
    have hsub : (inputLen - 128).toNat = inputLen.toNat - 128 :=
      UInt32.toNat_sub_of_le _ _ (UInt32.le_iff_toNat_le.2 (Nat.le_of_lt hlong'))
    have hnext := h.compress fun j hj => hinput j (by omega)
    have hptr : PointsAt (fun index => input (BLAKE2B_BLOCK_BYTES + index)) msg
        (128 * (k + 1)) := by
      intro j hj
      have := hinput (128 + j) (by omega)
      rw [show 128 * (k + 1) + j = 128 * k + (128 + j) by omega]
      exact this
    rw [drain, if_pos hlong]
    exact ih hnext hptr (by omega) (by omega)
  | case2 b input inputLen hshort =>
    have hshort' : ¬ 128 < inputLen.toNat := hshort
    have hk : Lib.Blake2b.fullBlocks msg.length = k := by
      unfold Lib.Blake2b.fullBlocks
      omega
    rw [drain, if_neg hshort, hk]
    exact ⟨h, rfl, hinput, hlen⟩

theorem bytesOf_length (ptr : Bytes) (n : Nat) : (bytesOf ptr n).length = n := by
  rw [bytesOf, List.length_map, List.length_range]

theorem bytesOf_getD {ptr : Bytes} {n j : Nat} (h : j < n) : (bytesOf ptr n).getD j 0 = ptr j := by
  have hj : j < (bytesOf ptr n).length := by rw [bytesOf_length]; exact h
  rw [List.getD_eq_getElem _ _ hj]
  simp [bytesOf]

/-- A byte of a longer message: one of the old ones, or one of the input. -/
theorem getD_old {msg : List UInt8} (rest : List UInt8) {j : Nat} (h : j < msg.length) :
    (msg ++ rest).getD j 0 = msg.getD j 0 := List.getD_append _ _ _ _ h

theorem getD_new {msg : List UInt8} {ptr : Bytes} {n j : Nat} (hlow : msg.length ≤ j)
    (hhigh : j < msg.length + n) : (msg ++ bytesOf ptr n).getD j 0 = ptr (j - msg.length) := by
  rw [List.getD_append_right _ _ _ _ hlow, bytesOf_getD (by omega)]

theorem Chained.append {b : Blake2b} {outLen k : Nat} {msg : List UInt8} (rest : List UInt8)
    (h : b.Chained outLen msg k) (hk : 128 * k ≤ msg.length) : b.Chained outLen (msg ++ rest) k :=
  ⟨by rw [Lib.Blake2b.chain_append _ _ hk, h.h], h.counts⟩

/-- What is left of the input joins the bytes in the buffer. -/
theorem keep_absorbed {b : Blake2b} {outLen : Nat} {msg : List UInt8} {input : Bytes}
    {inputLen : UInt32} (h : b.Chained outLen msg (Lib.Blake2b.fullBlocks msg.length))
    (hbuf : ∀ j < b.bufLen.toNat,
      b.buf j = msg.getD (128 * Lib.Blake2b.fullBlocks msg.length + j) 0)
    (hinput : PointsAt input msg
      (128 * Lib.Blake2b.fullBlocks msg.length + b.bufLen.toNat))
    (hlen : 128 * Lib.Blake2b.fullBlocks msg.length + b.bufLen.toNat + inputLen.toNat =
      msg.length) : (b.keep input inputLen).Absorbed outLen msg := by
  have hbufLen : (b.bufLen + inputLen).toNat = b.bufLen.toNat + inputLen.toNat := by
    rw [UInt32.toNat_add]
    unfold Lib.Blake2b.fullBlocks at hlen
    omega
  refine ⟨⟨h.h, h.counts.low, h.counts.high⟩, ?_, fun j hj => ?_⟩
  · change (b.bufLen + inputLen).toNat + _ = _
    omega
  · change j < (b.bufLen + inputLen).toNat at hj
    change copy b.buf b.bufLen.toNat input inputLen.toNat j = _
    rw [copy_apply]
    by_cases hold : j < b.bufLen.toNat
    · rw [if_neg (by omega), hbuf j hold]
    · rw [if_pos (by omega), hinput _ (by omega)]
      congr 1
      omega

/-- The bytes of an input behind a message. -/
theorem pointsAt_append (msg : List UInt8) (input : Bytes) (n i : Nat) :
    PointsAt (fun index => input (i + index)) (msg ++ bytesOf input n) (msg.length + i) := by
  intro j hj
  rw [List.length_append, bytesOf_length] at hj
  rw [getD_new (by omega) (by omega), show msg.length + i + j - msg.length = i + j by omega]

/-- With a full buffer hashed, the loop goes on with the blocks of the input. -/
theorem flush_chained {b : Blake2b} {outLen : Nat} {msg : List UInt8}
    (h : b.Absorbed outLen msg) (input : Bytes) {inputLen : UInt32}
    (hlong : 128 < b.bufLen.toNat + inputLen.toNat) :
    let r := b.flush input inputLen
    let whole := msg ++ bytesOf input inputLen.toNat
    r.1.Chained outLen whole (Lib.Blake2b.fullBlocks whole.length) ∧ r.1.bufLen = 0 ∧
      PointsAt r.2.1 whole (128 * Lib.Blake2b.fullBlocks whole.length) ∧
      128 * Lib.Blake2b.fullBlocks whole.length + r.2.2.toNat = whole.length := by
  obtain ⟨hchained, hbufLen, hbuf⟩ := h
  intro r whole
  have hlen : whole.length = msg.length + inputLen.toNat := by
    rw [List.length_append, bytesOf_length]
  have hle : b.bufLen.toNat ≤ 128 := by
    unfold Lib.Blake2b.fullBlocks at hbufLen
    omega
  generalize Lib.Blake2b.fullBlocks msg.length = k at hchained hbufLen hbuf
  have hfilled := (hchained.append (bytesOf input inputLen.toNat) (by omega)).compress
    fun j hj => show copy b.buf b.bufLen.toNat input (128 - b.bufLen.toNat) j = _ by
      rw [copy_apply]
      by_cases hold : j < b.bufLen.toNat
      · rw [if_neg (by omega), hbuf j hold, getD_old _ (by omega)]
      · rw [if_pos (by omega), getD_new (by omega) (by omega)]
        congr 1
        omega
  have hleft : (inputLen - UInt32.ofNat (128 - b.bufLen.toNat)).toNat =
      inputLen.toNat - (128 - b.bufLen.toNat) := by
    have hofNat : (UInt32.ofNat (128 - b.bufLen.toNat)).toNat = 128 - b.bufLen.toNat := by
      rw [UInt32.toNat_ofNat']
      omega
    rw [UInt32.toNat_sub_of_le _ _ (by rw [UInt32.le_iff_toNat_le, hofNat]; omega), hofNat]
  have hptr : PointsAt (fun index => input (128 - b.bufLen.toNat + index)) whole
      (128 * (k + 1)) := by
    have := pointsAt_append msg input inputLen.toNat (128 - b.bufLen.toNat)
    rwa [show msg.length + (128 - b.bufLen.toNat) = 128 * (k + 1) by omega] at this
  have hrest : 128 * (k + 1) + (inputLen - UInt32.ofNat (128 - b.bufLen.toNat)).toNat =
      whole.length ∧ 0 < (inputLen - UInt32.ofNat (128 - b.bufLen.toNat)).toNat := by
    rw [hlen, hleft]
    omega
  exact drain_chained ⟨hfilled.h, hfilled.counts.low, hfilled.counts.high⟩ hptr hrest.1 hrest.2

/-- However a message is cut up, an `update` continues it. -/
theorem update_absorbed {b : Blake2b} {outLen : Nat} {msg : List UInt8}
    (h : b.Absorbed outLen msg) (input : Bytes) (inputLen : UInt32) :
    (b.update input inputLen).Absorbed outLen (msg ++ bytesOf input inputLen.toNat) := by
  unfold update
  split_ifs with hlong
  · have hflush := flush_chained h input hlong
    generalize b.flush input inputLen = r at hflush
    obtain ⟨hchained, hzero, hptr, hlen⟩ := hflush
    have hnone : r.1.bufLen.toNat = 0 := by rw [hzero]; rfl
    refine keep_absorbed hchained (fun j hj => ?_) ?_ ?_
    · omega
    · rw [hnone]
      exact hptr
    · rw [hnone]
      exact hlen
  · have hshort : ¬ 128 < b.bufLen.toNat + inputLen.toNat := hlong
    obtain ⟨hchained, hbufLen, hbuf⟩ := h
    have hk : Lib.Blake2b.fullBlocks (msg ++ bytesOf input inputLen.toNat).length =
        Lib.Blake2b.fullBlocks msg.length := by
      rw [List.length_append, bytesOf_length]
      unfold Lib.Blake2b.fullBlocks at hbufLen ⊢
      omega
    have hptr := pointsAt_append msg input inputLen.toNat 0
    simp only [Nat.zero_add] at hptr
    refine keep_absorbed ?_ (fun j hj => ?_) ?_ ?_
    · rw [hk]
      exact hchained.append _ (by omega)
    · rw [hk, hbuf j hj, getD_old _ (by omega)]
    · rw [hk, Nat.add_comm, hbufLen]
      exact hptr
    · rw [hk, List.length_append, bytesOf_length]
      omega

/-! ## The digest -/

theorem store64_byte (value : UInt64) {i : Nat} (h : i < 8) :
    (value >>> UInt64.ofNat (8 * i)).toUInt8 = UInt8.ofNat (value.toNat / 256 ^ i) := by
  have hshift : (UInt64.ofNat (8 * i)).toNat % 64 = 8 * i := by
    rw [UInt64.toNat_ofNat']
    omega
  rw [← UInt8.toNat_inj, UInt64.toNat_toUInt8, UInt64.toNat_shiftRight, hshift,
    Nat.shiftRight_eq_div_pow, UInt8.toNat_ofNat', Nat.pow_mul]

/-- The words of the chaining value stand little-endian in the buffer. -/
theorem foldl_store64 (h : Vector UInt64 8) (words : List (Fin 8)) (buffer : Bytes) {a : Nat}
    (ha : a < 64) :
    words.foldl (fun buffer index => store64 buffer (8 * index.val) h[index]) buffer a =
      if (⟨a / 8, by omega⟩ : Fin 8) ∈ words then Lib.Blake2b.byteAt h a else buffer a := by
  induction words generalizing buffer with
  | nil => rfl
  | cons w words ih =>
    rw [List.foldl_cons, ih]
    by_cases hmem : (⟨a / 8, by omega⟩ : Fin 8) ∈ words
    · rw [if_pos hmem, if_pos (List.mem_cons_of_mem _ hmem)]
    · rw [if_neg hmem, store64, copy_apply]
      by_cases hw : a / 8 = w.val
      · have heq : (⟨a / 8, by omega⟩ : Fin 8) = w := Fin.ext hw
        have hin : 8 * w.val ≤ a ∧ a < 8 * w.val + 8 := by omega
        have hpos : a - 8 * w.val = a % 8 := by omega
        have hword : (⟨a / 8 % 8, Nat.mod_lt _ (by decide)⟩ : Fin 8) = w :=
          Fin.ext (by dsimp only; omega)
        rw [if_pos hin, if_pos (by rw [heq]; exact List.mem_cons_self), hpos,
          store64_byte _ (Nat.mod_lt _ (by decide)), Lib.Blake2b.byteAt, hword]
        rfl
      · have hout : ¬ (8 * w.val ≤ a ∧ a < 8 * w.val + 8) := by omega
        have hne : (⟨a / 8, by omega⟩ : Fin 8) ∉ w :: words := by
          rw [List.mem_cons, not_or]
          exact ⟨fun heq => hw (congrArg Fin.val heq), hmem⟩
        rw [if_neg hout, if_neg hne]

end Blake2b

/-- The bytes of a list, written one behind the other. -/
def writeList (mem : Bytes) (dst : Nat) (bytes : List UInt8) : Bytes :=
  copy mem dst (fun j => bytes.getD j 0) bytes.length

namespace Blake2b

theorem closeBlock_h {b : Blake2b} {outLen : Nat} {msg : List UInt8}
    (h : b.Absorbed outLen msg) : b.closeBlock.h = Lib.Blake2b.final outLen msg := by
  obtain ⟨hchained, hbufLen, hbuf⟩ := h
  have hle : b.bufLen.toNat ≤ 128 := by
    unfold Lib.Blake2b.fullBlocks at hbufLen
    omega
  have hcount : (b.incrementCounter b.bufLen.toUInt64).Counts msg.length := by
    have := hchained.counts.increment b.bufLen.toUInt64
    rwa [UInt32.toNat_toUInt64, Nat.add_comm, hbufLen] at this
  have hblock : ∀ j < 128, copy b.buf b.bufLen.toNat (fun _ => 0) (128 - b.bufLen.toNat) j =
      msg.getD (128 * Lib.Blake2b.fullBlocks msg.length + j) 0 := by
    intro j hj
    rw [copy_apply]
    by_cases hold : j < b.bufLen.toNat
    · rw [if_neg (by omega), hbuf j hold]
    · rw [if_pos (by omega), List.getD_eq_default _ _ (by omega)]
  have hcompress := @compress_h { (b.incrementCounter b.bufLen.toUInt64) with
    buf := copy b.buf b.bufLen.toNat (fun _ => 0) (128 - b.bufLen.toNat) } msg.length
    ⟨hcount.low, hcount.high⟩ (copy b.buf b.bufLen.toNat (fun _ => 0) (128 - b.bufLen.toNat)) true
  rw [Lib.Blake2b.block_of_bytes hblock] at hcompress
  unfold Lib.Blake2b.final
  rw [← hchained.h]
  exact hcompress

/-- The digest of what was absorbed is the hash of it. -/
theorem finalize_absorbed {b : Blake2b} {outLen : UInt32} {msg : List UInt8}
    (h : b.Absorbed outLen.toNat msg) (hout : outLen.toNat ≤ 64) (mem : Bytes) (out : Nat) :
    b.finalize mem out outLen = writeList mem out (Lib.Blake2b.hash outLen.toNat msg) := by
  unfold finalize writeList
  dsimp only
  rw [closeBlock_h h, Lib.Blake2b.hash_length]
  funext a
  rw [copy_apply, copy_apply]
  by_cases hin : out ≤ a ∧ a < out + outLen.toNat
  · have hj : a - out < (Lib.Blake2b.hash outLen.toNat msg).length := by
      rw [Lib.Blake2b.hash_length]
      omega
    rw [if_pos hin, if_pos hin, foldl_store64 _ _ _ (by omega), if_pos (List.mem_finRange _),
      List.getD_eq_getElem _ _ hj]
    simp [Lib.Blake2b.hash]
  · rw [if_neg hin, if_neg hin]

/-- A message fed in any pieces, each as long as an `update` takes. -/
def updates (b : Blake2b) (pieces : List (Bytes × UInt32)) : Blake2b :=
  pieces.foldl (fun b piece => b.update piece.1 piece.2) b

theorem updates_absorbed {b : Blake2b} {outLen : Nat} {msg : List UInt8}
    (h : b.Absorbed outLen msg) (pieces : List (Bytes × UInt32)) :
    (b.updates pieces).Absorbed outLen
      (msg ++ pieces.flatMap fun piece => bytesOf piece.1 piece.2.toNat) := by
  induction pieces generalizing b msg with
  | nil => rwa [List.flatMap_nil, List.append_nil]
  | cons piece pieces ih =>
    have := ih (update_absorbed h piece.1 piece.2)
    rwa [List.append_assoc] at this

/-- The device's hash is BLAKE2b of the message, for every split of it into `update` calls. -/
theorem finalize_updates {outLen : UInt32} (hout : outLen.toNat ≤ 64)
    (pieces : List (Bytes × UInt32)) (mem : Bytes) (out : Nat) :
    ((init outLen).updates pieces).finalize mem out outLen =
      writeList mem out (Lib.Blake2b.hash outLen.toNat
        (pieces.flatMap fun piece => bytesOf piece.1 piece.2.toNat)) :=
  finalize_absorbed (updates_absorbed (init_absorbed hout) pieces) hout mem out

end Blake2b

end TreeMiner.Kernel
