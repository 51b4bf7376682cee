import Mathlib.Data.List.GetD
import Mathlib.Data.Nat.Digits.Defs
import TreeMiner.Lib.Argon2

/-! BLAKE2b without a key (RFC 7693): the compression function F, and the hash of a message
block by block. -/

namespace TreeMiner.Lib.Blake2b

open Argon2 (rotr)

/-- The chaining value, and the words of a block or of the working vector. -/
abbrev State := Vector UInt64 8

abbrev Words := Vector UInt64 16

instance neZero_8 : NeZero 8 := ⟨by decide⟩

def chaining (h0 h1 h2 h3 h4 h5 h6 h7 : UInt64) : State := #v[h0, h1, h2, h3, h4, h5, h6, h7]

def IV : State := chaining 0x6a09e667f3bcc908 0xbb67ae8584caa73b 0x3c6ef372fe94f82b
  0xa54ff53a5f1d36f1 0x510e527fade682d1 0x9b05688c2b3e6c1f 0x1f83d9abfb41bd6b 0x5be0cd19137e2179

/-- The order in which a round takes the words of a block. -/
def schedule (s0 s1 s2 s3 s4 s5 s6 s7 s8 s9 s10 s11 s12 s13 s14 s15 : Fin 16) :
    Vector (Fin 16) 16 :=
  #v[s0, s1, s2, s3, s4, s5, s6, s7, s8, s9, s10, s11, s12, s13, s14, s15]

def SIGMA : Vector (Vector (Fin 16) 16) 10 := #v[
  schedule 0 1 2 3 4 5 6 7 8 9 10 11 12 13 14 15,
  schedule 14 10 4 8 9 15 13 6 1 12 0 2 11 7 5 3,
  schedule 11 8 12 0 5 2 15 13 10 14 3 6 7 1 9 4,
  schedule 7 9 3 1 13 12 11 14 2 6 5 10 4 0 15 8,
  schedule 9 0 5 7 2 4 10 15 14 1 11 12 6 8 3 13,
  schedule 2 12 6 10 0 11 8 3 4 13 7 5 15 14 1 9,
  schedule 12 5 1 15 14 13 4 10 0 7 6 3 9 2 8 11,
  schedule 13 11 7 14 12 1 3 9 5 0 15 4 8 6 2 10,
  schedule 6 15 14 9 11 3 0 8 12 2 13 7 1 4 10 5,
  schedule 10 2 8 4 7 6 1 5 15 11 9 14 3 12 13 0]

/-! ## The compression function -/

/-- The mixing function on four words of the working vector. -/
def G {n : Nat} (v : Vector UInt64 n) (a b c d : Fin n) (x y : UInt64) : Vector UInt64 n :=
  let v := v.set a (v[a] + v[b] + x)
  let v := v.set d (rotr (v[d] ^^^ v[a]) 32)
  let v := v.set c (v[c] + v[d])
  let v := v.set b (rotr (v[b] ^^^ v[c]) 24)
  let v := v.set a (v[a] + v[b] + y)
  let v := v.set d (rotr (v[d] ^^^ v[a]) 16)
  let v := v.set c (v[c] + v[d])
  v.set b (rotr (v[b] ^^^ v[c]) 63)

/-- One round: the columns, then the diagonals. -/
def round (m : Words) (s : Vector (Fin 16) 16) (v : Words) : Words :=
  let v := G v 0 4 8 12 (m.get (s.get 0)) (m.get (s.get 1))
  let v := G v 1 5 9 13 (m.get (s.get 2)) (m.get (s.get 3))
  let v := G v 2 6 10 14 (m.get (s.get 4)) (m.get (s.get 5))
  let v := G v 3 7 11 15 (m.get (s.get 6)) (m.get (s.get 7))
  let v := G v 0 5 10 15 (m.get (s.get 8)) (m.get (s.get 9))
  let v := G v 1 6 11 12 (m.get (s.get 10)) (m.get (s.get 11))
  let v := G v 2 7 8 13 (m.get (s.get 12)) (m.get (s.get 13))
  G v 3 4 9 14 (m.get (s.get 14)) (m.get (s.get 15))

/-- Word `a` with another word mixed in. -/
def xorAt {n : Nat} (v : Vector UInt64 n) (a : Fin n) (x : UInt64) : Vector UInt64 n :=
  v.set a (v[a] ^^^ x)

/-- The working vector: the chaining value and the constants, with the offset counter and
the flag of the last block. -/
def start (h : State) (t : Nat) (last : Bool) : Words :=
  let v : Words := h ++ IV
  let v := xorAt v 12 (UInt64.ofNat t)
  let v := xorAt v 13 (UInt64.ofNat (t / 2 ^ 64))
  if last then xorAt v 14 0xffffffffffffffff else v

/-- `F(h, m, t, f)` with an offset counter of 128 bits. -/
def F (h : State) (m : Words) (t : Nat) (last : Bool) : State :=
  let v := (List.finRange 12).foldl
    (fun v r => round m (SIGMA.get ⟨r.val % 10, Nat.mod_lt _ (by decide)⟩) v) (start h t last)
  Vector.ofFn fun i => h.get i ^^^ v.get (i.castAdd 8) ^^^ v.get (i.addNat 8)

/-! ## The hash -/

/-- The little-endian word `k` of a block. -/
def word (bytes : Nat → UInt8) (k : Nat) : UInt64 :=
  UInt64.ofNat (Nat.ofDigits 256 ((List.range 8).map fun j => (bytes (8 * k + j)).toNat))

/-- Block `i` of a message, padded with zeros. -/
def block (msg : List UInt8) (i : Nat) : Words :=
  Vector.ofFn fun k => word (fun j => msg.getD (128 * i + j) 0) k

/-- The parameter block: no key, fanout and depth one. -/
def init (outLen : Nat) : State :=
  xorAt IV 0 (0x01010000 ^^^ UInt64.ofNat outLen)

/-- The chaining value behind `n` blocks that are not the last. -/
def chain (outLen : Nat) (msg : List UInt8) : Nat → State
  | 0 => init outLen
  | n + 1 => F (chain outLen msg n) (block msg n) (128 * (n + 1)) false

/-- The blocks in front of the last one. The last block is empty only in an empty message. -/
def fullBlocks (length : Nat) : Nat := (length - 1) / 128

def final (outLen : Nat) (msg : List UInt8) : State :=
  F (chain outLen msg (fullBlocks msg.length)) (block msg (fullBlocks msg.length)) msg.length true

/-- Byte `i` of the words, little-endian. -/
def byteAt (h : State) (i : Nat) : UInt8 :=
  UInt8.ofNat ((h.get ⟨i / 8 % 8, Nat.mod_lt _ (by decide)⟩).toNat / 256 ^ (i % 8))

def hash (outLen : Nat) (msg : List UInt8) : List UInt8 :=
  let h := final outLen msg
  (List.range outLen).map (byteAt h)

@[simp] theorem hash_length (outLen : Nat) (msg : List UInt8) :
    (hash outLen msg).length = outLen := by
  simp [hash]

/-! ## Messages that grow -/

/-- A block is its 128 bytes. -/
theorem block_of_bytes {bytes : Nat → UInt8} {msg : List UInt8} {i : Nat}
    (h : ∀ j < 128, bytes j = msg.getD (128 * i + j) 0) :
    (Vector.ofFn fun k : Fin 16 => word bytes k) = block msg i := by
  refine congrArg Vector.ofFn (funext fun k => ?_)
  have hk := k.isLt
  refine congrArg (fun ds => UInt64.ofNat (Nat.ofDigits 256 ds))
    (List.map_congr_left fun j hj => ?_)
  have hj := List.mem_range.1 hj
  rw [h (8 * k + j) (by omega)]

theorem block_append {msg : List UInt8} (rest : List UInt8) {i : Nat}
    (h : 128 * (i + 1) ≤ msg.length) : block (msg ++ rest) i = block msg i := by
  refine (block_of_bytes fun j hj => ?_).symm
  rw [List.getD_append _ _ _ _ (by omega)]

/-- Full blocks are chained in the same way whatever follows them. -/
theorem chain_append (outLen : Nat) {msg : List UInt8} (rest : List UInt8) {n : Nat}
    (h : 128 * n ≤ msg.length) : chain outLen (msg ++ rest) n = chain outLen msg n := by
  induction n with
  | zero => rfl
  | succ n ih => rw [chain, chain, ih (by omega), block_append rest h]

end TreeMiner.Lib.Blake2b
