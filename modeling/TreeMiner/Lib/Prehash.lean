import TreeMiner.Lib.Blake2b

/-! The hashes around the memory of Argon2 (RFC 9106, 3.2 and 3.3): the hash H0 of the
inputs, the variable-length hash H', and the two blocks a lane starts from. -/

namespace TreeMiner.Lib.Argon2

open Blake2b (hash hash_length)

/-- A 32-bit integer, little-endian. -/
def le32 (n : Nat) : List UInt8 := (List.range 4).map fun j => UInt8.ofNat (n / 256 ^ j)

@[simp] theorem le32_length (n : Nat) : (le32 n).length = 4 := rfl

structure Params where
  lanes : Nat
  tagLength : Nat
  memoryCost : Nat
  passes : Nat
  version : Nat
  type : Nat

/-- `H0`, without a secret value and without associated data. -/
def H0 (p : Params) (password salt : List UInt8) : List UInt8 :=
  hash 64 (le32 p.lanes ++ le32 p.tagLength ++ le32 p.memoryCost ++ le32 p.passes ++
    le32 p.version ++ le32 p.type ++ le32 password.length ++ password ++ le32 salt.length ++
    salt ++ le32 0 ++ le32 0)

/-- `H0` with a secret value and associated data. -/
def keyedH0 (p : Params) (password salt secret data : List UInt8) : List UInt8 :=
  hash 64 (le32 p.lanes ++ le32 p.tagLength ++ le32 p.memoryCost ++ le32 p.passes ++
    le32 p.version ++ le32 p.type ++ le32 password.length ++ password ++ le32 salt.length ++
    salt ++ le32 secret.length ++ secret ++ le32 data.length ++ data)

theorem keyedH0_nil (p : Params) (password salt : List UInt8) :
    keyedH0 p password salt [] [] = H0 p password salt := by
  simp [keyedH0, H0]

/-- The chain `V_1, V_2, ..` of `H'`, counted from zero. -/
def V (length : Nat) (input : List UInt8) : Nat → List UInt8
  | 0 => hash 64 (le32 length ++ input)
  | i + 1 => hash 64 (V length input i)

/-- `H'`: the front halves of `r` links of the chain, and a last hash of what is missing. -/
def longHash (length : Nat) (input : List UInt8) : List UInt8 :=
  if length ≤ 64 then hash length (le32 length ++ input)
  else
    let r := (length + 31) / 32 - 2
    ((List.range r).flatMap fun i => (V length input i).take 32) ++
      hash (length - 32 * r) (V length input (r - 1))

/-- Block `index` of a lane, for `index` 0 and 1. -/
def firstBlock (p : Params) (password salt : List UInt8) (index lane : Nat) : List UInt8 :=
  longHash 1024 (H0 p password salt ++ le32 index ++ le32 lane)

/-! ## H' as a loop -/

/-- What is left to produce behind a link of the chain. -/
def links (buffer : List UInt8) (toProduce : Nat) : List UInt8 :=
  if 64 < toProduce then (hash 64 buffer).take 32 ++ links (hash 64 buffer) (toProduce - 32)
  else hash toProduce buffer
termination_by toProduce

theorem links_long {buffer : List UInt8} {toProduce : Nat} (h : 64 < toProduce) :
    links buffer toProduce =
      (hash 64 buffer).take 32 ++ links (hash 64 buffer) (toProduce - 32) := by
  rw [links, if_pos h]

theorem links_short {buffer : List UInt8} {toProduce : Nat} (h : ¬ 64 < toProduce) :
    links buffer toProduce = hash toProduce buffer := by
  rw [links, if_neg h]

/-- Link `k`, behind the front halves up to it. -/
theorem links_V {length : Nat} {input : List UInt8} (k : Nat) (h : 32 * (k + 2) < length) :
    ((List.range (k + 1)).flatMap fun i => (V length input i).take 32) ++
      links (V length input k) (length - 32 * (k + 1)) = longHash length input := by
  by_cases hlong : 64 < length - 32 * (k + 1)
  · have hrest : length - 32 * (k + 1) - 32 = length - 32 * (k + 2) := by omega
    rw [links_long hlong, hrest, ← List.append_assoc, ← links_V (k + 1) (by omega),
      List.range_succ (n := k + 1), List.flatMap_append, List.flatMap_singleton]
    rfl
  · have hr : (length + 31) / 32 - 2 = k + 1 := by omega
    have hlen : ¬ length ≤ 64 := by omega
    rw [links_short hlong, longHash, if_neg hlen, hr]
    rfl
termination_by length - 32 * k

theorem longHash_eq_links {length : Nat} {input : List UInt8} (h : 64 < length) :
    longHash length input = (hash 64 (le32 length ++ input)).take 32 ++
      links (hash 64 (le32 length ++ input)) (length - 32) := by
  rw [← links_V 0 h]
  simp [V]

theorem links_length (buffer : List UInt8) (toProduce : Nat) :
    (links buffer toProduce).length = toProduce := by
  induction buffer, toProduce using links.induct with
  | case1 buffer toProduce h ih =>
    rw [links_long h, List.length_append, ih, List.length_take, hash_length]
    omega
  | case2 buffer toProduce h => rw [links_short h, hash_length]

theorem longHash_length (length : Nat) (input : List UInt8) :
    (longHash length input).length = length := by
  by_cases h : 64 < length
  · rw [longHash_eq_links h, List.length_append, links_length, List.length_take, hash_length]
    omega
  · rw [longHash, if_pos (by omega), hash_length]

end TreeMiner.Lib.Argon2
