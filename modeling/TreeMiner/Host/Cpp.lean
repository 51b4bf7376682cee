import TreeMiner.Core.Address
import TreeMiner.Host.Argon2
import TreeMiner.Journal.Mutual
import TreeMiner.Kernel.Blake2b
import TreeMiner.Miner.Encoding

/-! The CPU half of Argon2 in the C++ miner: its BLAKE2b, which is fed by `update` calls, and
its `Argon2Params`, beside those of `tm-argon2`. -/

namespace TreeMiner.Cpp

open Lib Lib.Argon2
open Kernel (BLAKE2B_IV blakeRound load64)

def BLOCK_BYTES : Nat := 128

def OUT_BYTES : Nat := 64

structure Blake2b where
  h : Vector UInt64 8
  t0 : UInt64
  t1 : UInt64
  /-- the first `bufLen` bytes of the buffer -/
  buf : List UInt8
deriving DecidableEq, Repr

namespace Blake2b

def init (outlen : Nat) : Blake2b where
  h := Lib.Blake2b.xorAt BLAKE2B_IV 0
    (UInt64.ofNat outlen ||| ((1 : UInt64) <<< 16) ||| ((1 : UInt64) <<< 24))
  t0 := 0
  t1 := 0
  buf := []

def incrementCounter (self : Blake2b) (inc : UInt64) : Blake2b :=
  let t0 := self.t0 + inc
  { self with t0, t1 := self.t1 + (if t0 < inc then 1 else 0) }

/-- The constants and the rounds are those of the kernels. -/
def compress (self : Blake2b) (block : List UInt8) (f0 : UInt64) : Blake2b :=
  let m : Vector UInt64 16 := Vector.ofFn fun k => load64 fun i => block.getD (8 * k + i) 0
  let v : Vector UInt64 16 := self.h ++ BLAKE2B_IV
  -- the words from 8 on are constants, three of them with the counter and the flag
  let v := Lib.Blake2b.xorAt v 12 self.t0
  let v := Lib.Blake2b.xorAt v 13 self.t1
  let v := Lib.Blake2b.xorAt v 14 f0
  let v := (List.finRange 12).foldl (blakeRound m) v
  { self with
    h := Vector.ofFn fun i => self.h.get i ^^^ (v.get (i.castAdd 8) ^^^ v.get (i.addNat 8)) }

/-- The loop of `update` over the blocks that are not the last. -/
def blocks (self : Blake2b) (input : List UInt8) : Blake2b × List UInt8 :=
  if BLOCK_BYTES < input.length then
    blocks ((self.incrementCounter 128).compress (input.take BLOCK_BYTES) 0)
      (input.drop BLOCK_BYTES)
  else (self, input)
termination_by input.length
decreasing_by
  rw [List.length_drop]
  unfold BLOCK_BYTES at *
  omega

def update (self : Blake2b) (input : List UInt8) : Blake2b :=
  let (self, input) :=
    if BLOCK_BYTES < self.buf.length + input.length then
      let left := BLOCK_BYTES - self.buf.length
      let self := (self.incrementCounter 128).compress (self.buf ++ input.take left) 0
      blocks { self with buf := [] } (input.drop left)
    else (self, input)
  { self with buf := self.buf ++ input }

/-- The words of the state, little-endian, cut to the length of the output. -/
def final (self : Blake2b) (outLen : Nat) : List UInt8 :=
  let self := self.incrementCounter (UInt64.ofNat self.buf.length)
  let buf := self.buf ++ List.replicate (BLOCK_BYTES - self.buf.length) 0
  let self := self.compress buf 0xffffffffffffffff
  ((List.range OUT_BYTES).map (Lib.Blake2b.byteAt self.h)).take outLen

end Blake2b

/-- `init`, an `update` for every part, and `final`. -/
def blake (outLen : Nat) (parts : List (List UInt8)) : List UInt8 :=
  (parts.foldl Blake2b.update (Blake2b.init outLen)).final outLen

/-! ## `Argon2Params` -/

/-- `std::stoi` in base sixteen: the longest number in front, behind white space. A text of
two characters is never out of range. -/
def stoi16 (text : List UInt8) : Except String Int :=
  let s := text.dropWhile isSpace
  let (negative, s) := match s with
    | 45 :: s => (true, s)
    | 43 :: s => (false, s)
    | s => (false, s)
  -- the prefix `0x` counts only in front of a digit
  let s := match s with
    | 48 :: x :: c :: rest =>
      if (x = 120 ∨ x = 88) ∧ (hexNibble c).isSome then c :: rest else s
    | s => s
  let digits := s.takeWhile fun c => (hexNibble c).isSome
  if digits = [] then .error "stoi"
  else
    let value : Nat := digits.foldl (fun n c => n * 16 + (hexNibble c).getD 0) 0
    .ok (if negative then -value else value)

/-- Two characters a byte; a last one alone is a byte as well. -/
def hex_to_bytes : List UInt8 → Except String (List UInt8)
  | [] => .ok []
  | [a] => do
    let value ← stoi16 [a]
    .ok [UInt8.ofInt value]
  | a :: b :: rest => do
    let value ← stoi16 [a, b]
    let bytes ← hex_to_bytes rest
    .ok (UInt8.ofInt value :: bytes)

structure Argon2Params where
  type_ : UInt32
  version : UInt32
  /-- in hexadecimal -/
  salt : List UInt8
  secret : List UInt8
  ad : List UInt8
  outLen : UInt32
  t_cost : UInt32
  m_cost : UInt32
  lanes : UInt32

def digestLong (outLen : Nat) (input : List UInt8) : List UInt8 :=
  Host.digestLong blake outLen input

namespace Argon2Params

def initialHash (self : Argon2Params) (pwd : List UInt8) : Except String (List UInt8) :=
  if self.secret.length = 0 ∧ self.ad.length = 0 then do
    let header := [self.lanes.toNat, self.outLen.toNat, self.m_cost.toNat, self.t_cost.toNat,
      self.version.toNat, self.type_.toNat, pwd.length].flatMap le32
    let hexSalt ← hex_to_bytes self.salt
    let empty_lengths := le32 self.secret.length ++ le32 self.ad.length
    .ok (blake 64 [header, pwd, le32 hexSalt.length, hexSalt, empty_lengths])
  else do
    let hexSalt ← hex_to_bytes self.salt
    .ok (blake 64 [le32 self.lanes.toNat, le32 self.outLen.toNat, le32 self.m_cost.toNat,
      le32 self.t_cost.toNat, le32 self.version.toNat, le32 self.type_.toNat, le32 pwd.length,
      pwd, le32 hexSalt.length, hexSalt, le32 self.secret.length, self.secret,
      le32 self.ad.length, self.ad])

/-- What is written at `memory`: block 0 of every lane, then block 1. -/
def fillFirstBlocks (self : Argon2Params) (pwd : List UInt8) : Except String (List UInt8) := do
  let initHash ← self.initialHash pwd
  let pass := fun index => (List.range self.lanes.toNat).flatMap fun l =>
    digestLong 1024 (initHash ++ le32 index ++ le32 l)
  .ok (pass 0 ++ pass 1)

/-- The blocks of the lanes at `memory`, XORed into the first. -/
def xored (self : Argon2Params) (memory : List UInt8) : List UInt8 :=
  (List.range 1024).map fun i => (List.range (self.lanes.toNat - 1)).foldl
    (fun x l => x ^^^ memory.getD (1024 * (l + 1) + i) 0) (memory.getD i 0)

def finalize (self : Argon2Params) (memory : List UInt8) : List UInt8 :=
  if self.lanes = 1 then digestLong self.outLen.toNat (memory.take 1024)
  else digestLong self.outLen.toNat (self.xored memory)

/-- The same parameters as `tm-argon2` has them. -/
def shape (self : Argon2Params) : Host.Argon2Shape where
  type_ := self.type_
  version := self.version
  passes := self.t_cost
  lanes := self.lanes
  memoryCost := self.m_cost
  outputLength := self.outLen

end Argon2Params

/-! ## BLAKE2b -/

namespace Blake2b

/-- The same state as the kernels have it. -/
def device (self : Blake2b) : Kernel.Blake2b where
  h := self.h
  t0 := self.t0
  t1 := self.t1
  buf := fun i => self.buf.getD i 0
  bufLen := UInt32.ofNat self.buf.length

theorem compress_device (b : Blake2b) (block : List UInt8) (f0 : UInt64) :
    (b.compress block f0).h = (b.device.compress (fun i => block.getD i 0) f0).h := by
  unfold compress Kernel.Blake2b.compress device Lib.Blake2b.xorAt
  rfl

theorem init_h {outlen : Nat} (h : outlen ≤ 64) :
    (init outlen).h = Lib.Blake2b.init outlen := by
  have hkernel := @Kernel.Blake2b.init_h (UInt32.ofNat outlen) (by
    rw [UInt32.toNat_ofNat']
    omega)
  have hout : (UInt32.ofNat outlen).toNat = outlen := by
    rw [UInt32.toNat_ofNat']
    omega
  have hword : (UInt32.ofNat outlen).toUInt64 = UInt64.ofNat outlen := by
    rw [← UInt64.toNat_inj, UInt32.toNat_toUInt64, hout, UInt64.toNat_ofNat']
    omega
  rw [hout] at hkernel
  rw [← hkernel]
  unfold init Kernel.Blake2b.init Lib.Blake2b.xorAt
  dsimp only
  rw [hword]
  rfl

/-- Behind `k` blocks of a message that is not finished. -/
structure Chained (b : Blake2b) (outLen : Nat) (msg : List UInt8) (k : Nat) : Prop where
  h : b.h = Lib.Blake2b.chain outLen msg k
  counts : b.device.Counts (128 * k)

/-- The state behind an unfinished message: the last block, full or not, is in the buffer. -/
structure Absorbed (b : Blake2b) (outLen : Nat) (msg : List UInt8) : Prop where
  chained : b.Chained outLen msg (Lib.Blake2b.fullBlocks msg.length)
  buf : b.buf = msg.drop (128 * Lib.Blake2b.fullBlocks msg.length)

theorem init_absorbed {outlen : Nat} (h : outlen ≤ 64) : (init outlen).Absorbed outlen [] :=
  ⟨⟨init_h h, rfl, rfl⟩, rfl⟩

/-- A full block that is not the last is compressed with the count behind it. -/
theorem Chained.compress {b : Blake2b} {outLen k : Nat} {msg block rest : List UInt8}
    (h : b.Chained outLen msg k) (hblock : msg.drop (128 * k) = block ++ rest)
    (hlen : block.length = 128) :
    ((b.incrementCounter 128).compress block 0).Chained outLen msg (k + 1) := by
  have hcount : (b.incrementCounter 128).device.Counts (128 * (k + 1)) := h.counts.increment 128
  refine ⟨?_, hcount.low, hcount.high⟩
  have hbytes : ∀ j < 128, block.getD j 0 = msg.getD (128 * k + j) 0 := by
    intro j hj
    rw [List.getD_eq_getElem?_getD, List.getD_eq_getElem?_getD, ← List.getElem?_drop, hblock,
      List.getElem?_append_left (by omega)]
  have hF := Kernel.Blake2b.compress_h hcount (fun i => block.getD i 0) false
  rw [Lib.Blake2b.block_of_bytes hbytes] at hF
  rw [compress_device, Lib.Blake2b.chain, ← h.h]
  exact hF

theorem Chained.append {b : Blake2b} {outLen k : Nat} {msg : List UInt8} (rest : List UInt8)
    (h : b.Chained outLen msg k) (hk : 128 * k ≤ msg.length) : b.Chained outLen (msg ++ rest) k :=
  ⟨by rw [Lib.Blake2b.chain_append _ _ hk, h.h], h.counts⟩

/-- The loop leaves one block at most, and one byte at least. -/
theorem blocks_chained {b : Blake2b} {outLen k : Nat} {msg input : List UInt8}
    (h : b.Chained outLen msg k) (hinput : msg.drop (128 * k) = input) (hpos : 0 < input.length) :
    (b.blocks input).1.Chained outLen msg (Lib.Blake2b.fullBlocks msg.length) ∧
      (b.blocks input).1.buf = b.buf ∧
      (b.blocks input).2 = msg.drop (128 * Lib.Blake2b.fullBlocks msg.length) := by
  have hlen : msg.length - 128 * k = input.length := by rw [← hinput, List.length_drop]
  induction b, input using blocks.induct generalizing k with
  | case1 b input hlong ih =>
    have hlong' : 128 < input.length := hlong
    have hnext := h.compress (hinput.trans (List.take_append_drop 128 input).symm) (by
      rw [List.length_take]
      omega)
    have hrest : msg.drop (128 * (k + 1)) = input.drop BLOCK_BYTES := by
      rw [← hinput, List.drop_drop]
      rfl
    have hrestLen : (input.drop BLOCK_BYTES).length = input.length - 128 := List.length_drop
    rw [blocks, if_pos hlong]
    exact ih hnext hrest (by omega) (by omega)
  | case2 b input hshort =>
    have hshort' : ¬ 128 < input.length := hshort
    have hk : Lib.Blake2b.fullBlocks msg.length = k := by
      unfold Lib.Blake2b.fullBlocks
      omega
    rw [blocks, if_neg hshort, hk]
    exact ⟨h, rfl, hinput.symm⟩

/-- However a message is cut up, an `update` continues it. -/
theorem update_absorbed {b : Blake2b} {outLen : Nat} {msg : List UInt8}
    (h : b.Absorbed outLen msg) (input : List UInt8) :
    (b.update input).Absorbed outLen (msg ++ input) := by
  obtain ⟨hchained, hbuf⟩ := h
  have hbufLen : b.buf.length = msg.length - 128 * Lib.Blake2b.fullBlocks msg.length := by
    rw [hbuf, List.length_drop]
  have hk : 128 * Lib.Blake2b.fullBlocks msg.length ≤ msg.length := by
    unfold Lib.Blake2b.fullBlocks
    omega
  have hdrop : (msg ++ input).drop (128 * Lib.Blake2b.fullBlocks msg.length) = b.buf ++ input := by
    rw [List.drop_append_of_le_length hk, hbuf]
  unfold update
  by_cases hlong : BLOCK_BYTES < b.buf.length + input.length
  · have hlong' : 128 < b.buf.length + input.length := hlong
    rw [if_pos hlong]
    dsimp only
    -- the buffer is filled up, and the loop goes on behind it
    have hle : b.buf.length ≤ 128 := by
      unfold Lib.Blake2b.fullBlocks at hbufLen
      omega
    have hsplit : b.buf ++ input = (b.buf ++ input.take (BLOCK_BYTES - b.buf.length)) ++
        input.drop (BLOCK_BYTES - b.buf.length) := by
      rw [List.append_assoc, List.take_append_drop]
    have hfull : (b.buf ++ input.take (BLOCK_BYTES - b.buf.length)).length = 128 := by
      rw [List.length_append, List.length_take]
      unfold BLOCK_BYTES
      omega
    have hfilled := (hchained.append input hk).compress (hdrop.trans hsplit) hfull
    have hrest : (msg ++ input).drop (128 * (Lib.Blake2b.fullBlocks msg.length + 1)) =
        input.drop (BLOCK_BYTES - b.buf.length) := by
      rw [Nat.mul_succ, ← List.drop_drop, hdrop, hsplit, List.drop_left' hfull]
    have hpos : 0 < (input.drop (BLOCK_BYTES - b.buf.length)).length := by
      rw [List.length_drop]
      unfold BLOCK_BYTES
      omega
    obtain ⟨hloop, hempty, hleft⟩ := blocks_chained
      (b := { (b.incrementCounter 128).compress
        (b.buf ++ input.take (BLOCK_BYTES - b.buf.length)) 0 with buf := [] })
      ⟨hfilled.h, hfilled.counts.low, hfilled.counts.high⟩ hrest hpos
    refine ⟨⟨hloop.h, hloop.counts.low, hloop.counts.high⟩, ?_⟩
    rw [hempty]
    exact hleft
  · have hshort : ¬ 128 < b.buf.length + input.length := hlong
    rw [if_neg hlong]
    have hsame : Lib.Blake2b.fullBlocks (msg ++ input).length =
        Lib.Blake2b.fullBlocks msg.length := by
      rw [List.length_append]
      unfold Lib.Blake2b.fullBlocks at hbufLen ⊢
      omega
    refine ⟨?_, ?_⟩
    · rw [hsame]
      exact ⟨(hchained.append input hk).h, hchained.counts.low, hchained.counts.high⟩
    · rw [hsame, hdrop]

/-- The digest of what was absorbed is the hash of it. -/
theorem final_absorbed {b : Blake2b} {outLen : Nat} {msg : List UInt8}
    (h : b.Absorbed outLen msg) (hout : outLen ≤ 64) :
    b.final outLen = Lib.Blake2b.hash outLen msg := by
  obtain ⟨hchained, hbuf⟩ := h
  have hk : 128 * Lib.Blake2b.fullBlocks msg.length ≤ msg.length ∧
      msg.length ≤ 128 * Lib.Blake2b.fullBlocks msg.length + 128 := by
    unfold Lib.Blake2b.fullBlocks
    omega
  have hbufLen : b.buf.length = msg.length - 128 * Lib.Blake2b.fullBlocks msg.length := by
    rw [hbuf, List.length_drop]
  have hcount : (b.incrementCounter (UInt64.ofNat b.buf.length)).device.Counts msg.length := by
    have hsum : 128 * Lib.Blake2b.fullBlocks msg.length + (UInt64.ofNat b.buf.length).toNat =
        msg.length := by
      rw [UInt64.toNat_ofNat']
      omega
    have := hchained.counts.increment (UInt64.ofNat b.buf.length)
    rw [hsum] at this
    exact this
  have hbytes : ∀ j < 128, (b.buf ++ List.replicate (BLOCK_BYTES - b.buf.length) 0).getD j 0 =
      msg.getD (128 * Lib.Blake2b.fullBlocks msg.length + j) 0 := by
    intro j hj
    by_cases hold : j < b.buf.length
    · rw [List.getD_append _ _ _ _ hold, hbuf, List.getD_eq_getElem?_getD, List.getElem?_drop,
        List.getD_eq_getElem?_getD]
    · rw [List.getD_append_right _ _ _ _ (by omega), List.getD_eq_default msg _ (by omega)]
      simp
  have hF := Kernel.Blake2b.compress_h hcount
    (fun i => (b.buf ++ List.replicate (BLOCK_BYTES - b.buf.length) 0).getD i 0) true
  rw [Lib.Blake2b.block_of_bytes hbytes, if_pos rfl] at hF
  have hlast : ((b.incrementCounter (UInt64.ofNat b.buf.length)).compress
      (b.buf ++ List.replicate (BLOCK_BYTES - b.buf.length) 0) 0xffffffffffffffff).h =
      Lib.Blake2b.final outLen msg := by
    unfold Lib.Blake2b.final
    rw [compress_device, ← hchained.h]
    exact hF
  have hwords := congrArg
    (fun h => ((List.range OUT_BYTES).map (Lib.Blake2b.byteAt h)).take outLen) hlast
  have hcut : (List.range OUT_BYTES).take outLen = List.range outLen := by
    rw [List.take_range, show min outLen OUT_BYTES = outLen from Nat.min_eq_left hout]
  unfold Lib.Blake2b.hash
  dsimp only
  rw [← hcut, List.map_take]
  exact hwords

theorem updates_absorbed {b : Blake2b} {outLen : Nat} {msg : List UInt8}
    (h : b.Absorbed outLen msg) (parts : List (List UInt8)) :
    (parts.foldl update b).Absorbed outLen (msg ++ parts.flatten) := by
  induction parts generalizing b msg with
  | nil => rwa [List.flatten_nil, List.append_nil]
  | cons part parts ih =>
    have := ih (update_absorbed h part)
    rwa [List.append_assoc] at this

end Blake2b

/-- In whatever parts a message is fed, the digest is the BLAKE2b hash of it. -/
theorem blake_isBlake2b : Host.IsBlake2b blake := fun _ parts _ hout =>
  Blake2b.final_absorbed (Blake2b.updates_absorbed (Blake2b.init_absorbed hout) parts) hout

/-! ## The salt -/

/-- A digit is neither white space nor a sign. -/
theorem of_hexNibble {c : UInt8} {d : Nat} (h : hexNibble c = some d) :
    isSpace c = false ∧ c ≠ 45 ∧ c ≠ 43 := by
  have hrange : (48 ≤ c.toNat ∧ c.toNat ≤ 57) ∨ (97 ≤ c.toNat ∧ c.toNat ≤ 102) ∨
      (65 ≤ c.toNat ∧ c.toNat ≤ 70) := by
    unfold hexNibble at h
    simp only [UInt8.le_iff_toNat_le] at h
    split_ifs at h with h1 h2 h3
    · exact .inl h1
    · exact .inr (.inl h2)
    · exact .inr (.inr h3)
  refine ⟨?_, ?_, ?_⟩
  · unfold isSpace
    simp only [← UInt8.toNat_inj, UInt8.le_iff_toNat_le, Bool.or_eq_false_iff,
      Bool.and_eq_false_iff, decide_eq_false_iff_not, UInt8.reduceToNat]
    omega
  · rintro rfl
    revert hrange
    decide
  · rintro rfl
    revert hrange
    decide

theorem stoi16_pair {a b : UInt8} {x y : Nat} (ha : hexNibble a = some x)
    (hb : hexNibble b = some y) : stoi16 [a, b] = .ok ((x * 16 + y : Nat) : Int) := by
  obtain ⟨hspace, h45, h43⟩ := of_hexNibble ha
  simp [stoi16, hspace, h45, h43, ha, hb]

theorem hexNibble_of_toDigit16 {c : Char} {d : Nat} (h : toDigit16 c = some d) :
    hexNibble (UInt8.ofNat c.toNat) = some d := by
  have hval : c.val.toNat = c.toNat := rfl
  have hbounds : ('0' : Char).val.toNat = 48 ∧ ('9' : Char).val.toNat = 57 ∧
      ('a' : Char).val.toNat = 97 ∧ ('f' : Char).val.toNat = 102 ∧
      ('A' : Char).val.toNat = 65 ∧ ('F' : Char).val.toNat = 70 := by decide
  have h0 : ('0' : Char).toNat = 48 := rfl
  have ha : ('a' : Char).toNat = 97 := rfl
  have hA : ('A' : Char).toNat = 65 := rfl
  unfold toDigit16 isAsciiDigit digitVal at h
  unfold hexNibble
  simp only [Bool.and_eq_true, decide_eq_true_eq, Char.le_def, UInt32.le_iff_toNat_le] at h
  simp only [UInt8.le_iff_toNat_le, UInt8.toNat_ofNat', UInt8.reduceToNat]
  split_ifs at h with h1 h2 h3
  · rw [if_pos (by omega), Option.some_inj]
    rw [Option.some_inj] at h
    omega
  · rw [if_neg (by omega), if_pos (by omega), Option.some_inj]
    rw [Option.some_inj] at h
    omega
  · rw [if_neg (by omega), if_neg (by omega), if_pos (by omega), Option.some_inj]
    rw [Option.some_inj] at h
    omega

/-- Where the Rust parser takes a salt, the C++ one reads the same bytes. -/
theorem hex_to_bytes_of_hexDecode {cs : List Char} {bytes : List UInt8}
    (h : hexDecode cs = some bytes) :
    hex_to_bytes (cs.map fun c => UInt8.ofNat c.toNat) = .ok bytes := by
  induction cs using hexDecode.induct generalizing bytes with
  | case1 =>
    obtain rfl := Option.some.inj h
    rfl
  | case2 c => cases h
  | case3 hi lo rest ih =>
    obtain ⟨x, y, tail, hx, hy, htail, rfl⟩ := hexDecode_cons h
    have hbyte : UInt8.ofInt ((x * 16 + y : Nat) : Int) = UInt8.ofNat (x * 16 + y) := by
      rw [← UInt8.toNat_inj]
      unfold UInt8.ofInt
      rw [UInt8.toNat_ofNat', UInt8.toNat_ofNat']
      omega
    rw [List.map_cons, List.map_cons, hex_to_bytes,
      stoi16_pair (hexNibble_of_toDigit16 hx) (hexNibble_of_toDigit16 hy), ih htail, ← hbyte]
    rfl

/-- A text that decodes is one byte a character. -/
theorem lit_of_hexDecode {salt : String} {bytes : List UInt8}
    (h : hexDecode salt.toList = some bytes) :
    lit salt = salt.toList.map fun c => UInt8.ofNat c.toNat :=
  utf8_ascii fun c hc => toNat_of_isAsciiAlphanumeric
    (isAsciiAlphanumeric_of_hexdigit (isAsciiHexdigit_of_hexDecode h c hc))

theorem hex_to_bytes_eq {salt : String} {bytes : List UInt8} (h : hexToBytes salt = .ok bytes) :
    hex_to_bytes (lit salt) = .ok bytes := by
  unfold hexToBytes at h
  split_ifs at h
  cases hdecode : hexDecode salt.toList with
  | none =>
    rw [hdecode] at h
    cases h
  | some decoded =>
    rw [hdecode] at h
    obtain rfl := Except.ok.inj h
    rw [lit_of_hexDecode hdecode]
    exact hex_to_bytes_of_hexDecode hdecode

/-! ## The two hosts -/

namespace Argon2Params

theorem initialHash_eq (p : Argon2Params) (pwd : List UInt8) {saltBytes : List UInt8}
    (hsalt : hex_to_bytes p.salt = .ok saltBytes) :
    p.initialHash pwd = .ok (keyedH0 p.shape.params pwd saltBytes p.secret p.ad) := by
  unfold initialHash
  rw [hsalt]
  split_ifs with hempty
  · obtain ⟨hsecret, had⟩ := hempty
    rw [List.length_eq_zero_iff] at hsecret had
    refine congrArg Except.ok ((blake_isBlake2b 64 _ (by decide) (by decide)).trans ?_)
    unfold keyedH0
    rw [hsecret, had]
    refine congrArg (Lib.Blake2b.hash 64) ?_
    simp [shape, Host.Argon2Shape.params]
  · refine congrArg Except.ok ((blake_isBlake2b 64 _ (by decide) (by decide)).trans ?_)
    unfold keyedH0
    refine congrArg (Lib.Blake2b.hash 64) ?_
    simp [shape, Host.Argon2Shape.params]

theorem fillFirstBlocks_eq {p : Argon2Params} (pwd : List UInt8) {saltBytes : List UInt8}
    (hsalt : hex_to_bytes p.salt = .ok saltBytes) (hsecret : p.secret = []) (had : p.ad = []) :
    p.fillFirstBlocks pwd = .ok (Host.firstBlocks p.shape pwd saltBytes) := by
  have hlong : ∀ input, digestLong 1024 input = longHash 1024 input :=
    fun input => Host.digestLong_eq blake_isBlake2b input (by decide)
  unfold fillFirstBlocks
  rw [p.initialHash_eq pwd hsalt, hsecret, had, keyedH0_nil]
  simp only [hlong]
  unfold Host.firstBlocks Host.laneBlocks firstBlock
  simp only [List.flatMap_cons, List.flatMap_nil, List.append_nil]
  rfl

/-- From the first lane on, or from zero, the lanes add up to the same block. -/
theorem xored_eq {p : Argon2Params} {memory : List UInt8} (hlane : 0 < p.lanes.toNat)
    (hlen : memory.length = p.lanes.toNat * 1024) : p.xored memory = Host.xorLanes memory := by
  have hcount : memory.length / Host.ARGON2_BLOCK_SIZE = p.lanes.toNat - 1 + 1 := by
    rw [hlen, Nat.sub_add_cancel hlane]
    exact Nat.mul_div_cancel _ (by decide)
  unfold xored Host.xorLanes
  rw [hcount]
  refine List.map_congr_left fun i _ => ?_
  rw [List.range_succ_eq_map, List.foldl_cons, List.foldl_map, UInt8.zero_xor, Nat.zero_mul,
    Nat.zero_add]
  refine List.foldl_ext _ _ _ fun x l _ => ?_
  rw [Nat.mul_comm]
  rfl

theorem finalize_eq {blake2bVar : Nat → List (List UInt8) → List UInt8}
    (hb : Host.IsBlake2b blake2bVar) {p : Argon2Params} (hlanes : p.lanes ≠ 0)
    (hout : p.outLen ≠ 0) {memory : List UInt8}
    (hlen : memory.length = p.lanes.toNat * Host.ARGON2_BLOCK_SIZE) :
    Host.finalize blake2bVar memory p.outLen.toNat = .ok (p.finalize memory) := by
  have hpos : 0 < p.outLen.toNat := Nat.pos_of_ne_zero fun h => hout (UInt32.toNat_inj.1 h)
  have hlane : 0 < p.lanes.toNat := Nat.pos_of_ne_zero fun h => hlanes (UInt32.toNat_inj.1 h)
  have hdigest : ∀ input, Host.digestLong blake2bVar p.outLen.toNat input =
      digestLong p.outLen.toNat input := fun input =>
    (Host.digestLong_eq hb input hpos).trans (Host.digestLong_eq blake_isBlake2b input hpos).symm
  have hsize : Host.ARGON2_BLOCK_SIZE = 1024 := rfl
  rw [hsize] at hlen
  have hwhole : (memory.isEmpty || memory.length % Host.ARGON2_BLOCK_SIZE != 0) = false := by
    rw [hsize, hlen, Nat.mul_mod_left, List.isEmpty_eq_false_iff.2 (List.ne_nil_of_length_pos (by
      omega))]
    rfl
  unfold Host.finalize finalize
  rw [hwhole, if_neg Bool.false_ne_true, hdigest, hdigest, hsize]
  by_cases hone : p.lanes = 1
  · have h1024 : memory.length = 1024 := by rw [hlen, hone]; rfl
    rw [if_pos hone, if_pos h1024, List.take_of_length_le (by omega)]
  · have hmore : p.lanes.toNat ≠ 1 := fun h => hone (UInt32.toNat_inj.1 h)
    rw [if_neg hone, if_neg (by omega), xored_eq hlane hlen]

end Argon2Params

/-- Both miners start Argon2 from the same bytes and read the same digest out of its last
blocks: RFC 9106's, with any lanes, and with the secret and the data only the C++ one takes. -/
theorem hosts_agree {blake2bVar : Nat → List (List UInt8) → List UInt8}
    (hb : Host.IsBlake2b blake2bVar) {salt : String} {saltBytes : List UInt8}
    (hsalt : hexToBytes salt = .ok saltBytes) {p : Argon2Params} (hp : p.salt = lit salt)
    (hlanes : p.lanes ≠ 0) (hout : p.outLen ≠ 0) :
    Host.IsBlake2b blake ∧
      (∀ pwd, p.initialHash pwd = .ok (keyedH0 p.shape.params pwd saltBytes p.secret p.ad)) ∧
      (p.secret = [] → p.ad = [] → ∀ pwd slot, slot.length = Host.slotBytes p.shape →
        p.fillFirstBlocks pwd = .ok (Host.firstBlocks p.shape pwd saltBytes) ∧
          Host.fillFirstBlocks blake2bVar slot pwd saltBytes p.shape = p.fillFirstBlocks pwd) ∧
      ∀ memory, memory.length = p.lanes.toNat * Host.ARGON2_BLOCK_SIZE →
        Host.finalize blake2bVar memory p.outLen.toNat = .ok (p.finalize memory) := by
  have hbytes : hex_to_bytes p.salt = .ok saltBytes := hp ▸ hex_to_bytes_eq hsalt
  refine ⟨blake_isBlake2b, fun pwd => p.initialHash_eq pwd hbytes, ?_, ?_⟩
  · intro hsecret had pwd slot hslot
    have hcpp := Argon2Params.fillFirstBlocks_eq pwd hbytes hsecret had
    have hrust := Host.fillFirstBlocks_eq hb pwd saltBytes hslot hlanes
    exact ⟨hcpp, hrust.trans hcpp.symm⟩
  · exact fun memory hlen => Argon2Params.finalize_eq hb hlanes hout hlen

/-- The parameters of a mining batch. -/
def miningParams : Argon2Params where
  type_ := 2
  version := 0x13
  salt := lit "24691e54afafe241"
  secret := []
  ad := []
  outLen := 64
  t_cost := 1
  m_cost := 8
  lanes := 1

theorem hosts_agree_mining : miningParams.fillFirstBlocks [1, 2, 3] =
    .ok (Host.firstBlocks miningParams.shape [1, 2, 3] [36, 105, 30, 84, 175, 175, 226, 65]) :=
  have hb : Host.IsBlake2b fun outLen parts => Lib.Blake2b.hash outLen parts.flatten :=
    fun _ _ _ _ => rfl
  have hsalt : hexToBytes "24691e54afafe241" = .ok [36, 105, 30, 84, 175, 175, 226, 65] := by
    decide
  ((hosts_agree hb hsalt (p := miningParams) rfl (by decide) (by decide)).2.2.1 rfl rfl [1, 2, 3]
    (List.replicate 2048 0) List.length_replicate).1

end TreeMiner.Cpp
