import TreeMiner.Lib.Prehash

/-! The CPU half of Argon2 (`tm-argon2`): the first blocks of a job out of its password and
salt, and the digest out of its last block. -/

namespace TreeMiner.Host

open Lib Lib.Argon2

def ARGON2_ID : UInt32 := 2

def ARGON2_VERSION_13 : UInt32 := 0x13

def ARGON2_BLOCK_SIZE : Nat := 1024

def ARGON2_SYNC_POINTS : UInt32 := 4

def DEFAULT_HASH_LENGTH : Nat := 64

def INPUT_BLOCKS_PER_JOB : Nat := 2

def BLAKE2B_OUT_BYTES : Nat := 64

def PREHASH_DIGEST_LENGTH : Nat := 64

/-- What the kernel launch and the first blocks agree on. -/
structure Argon2Shape where
  type_ : UInt32
  version : UInt32
  passes : UInt32
  lanes : UInt32
  memoryCost : UInt32
  outputLength : UInt32
deriving DecidableEq, Repr

namespace Argon2Shape

/-- The shape XenBlocks mines with at a given difficulty. -/
def forDifficulty (difficulty : UInt32) : Argon2Shape where
  type_ := ARGON2_ID
  version := ARGON2_VERSION_13
  passes := 1
  lanes := 1
  memoryCost := difficulty
  outputLength := 64

def segmentBlocks (s : Argon2Shape) : UInt32 :=
  let segments := s.lanes * ARGON2_SYNC_POINTS
  max s.memoryCost (2 * segments) / segments

def laneBlocks (s : Argon2Shape) : UInt32 := s.segmentBlocks * ARGON2_SYNC_POINTS

/-- Device bytes one job of this shape occupies. -/
def jobBytes (s : Argon2Shape) : Nat := s.laneBlocks.toNat * s.lanes.toNat * ARGON2_BLOCK_SIZE

/-- The inputs of `H0` besides the password and the salt. -/
def params (s : Argon2Shape) : Params where
  lanes := s.lanes.toNat
  tagLength := s.outputLength.toNat
  memoryCost := s.memoryCost.toNat
  passes := s.passes.toNat
  version := s.version.toNat
  type := s.type_.toNat

end Argon2Shape

theorem toNat_max (a b : UInt32) : (max a b).toNat = max a.toNat b.toNat := by
  change (if a ≤ b then b else a).toNat = _
  split_ifs with hle
  · exact (Nat.max_eq_right (UInt32.le_iff_toNat_le.1 hle)).symm
  · have hlt := UInt32.lt_iff_toNat_lt.1 (UInt32.not_le.1 hle)
    exact (Nat.max_eq_left hlt.le).symm

/-- One lane has two blocks at least in each of its four segments. -/
theorem Argon2Shape.segmentBlocks_toNat {shape : Argon2Shape} (hlanes : shape.lanes = 1) :
    shape.segmentBlocks.toNat = max shape.memoryCost.toNat 8 / 4 := by
  unfold segmentBlocks
  dsimp only
  rw [hlanes, UInt32.toNat_div, toNat_max]
  rfl

theorem Argon2Shape.jobBytes_eq {shape : Argon2Shape} (hlanes : shape.lanes = 1) :
    shape.jobBytes = max shape.memoryCost.toNat 8 / 4 * 4 * 1024 := by
  have hcost := shape.memoryCost.toNat_lt
  unfold jobBytes laneBlocks
  rw [UInt32.toNat_mul, segmentBlocks_toNat hlanes, hlanes,
    show ARGON2_SYNC_POINTS.toNat = 4 from rfl, Nat.mod_eq_of_lt (by omega)]
  change _ * 1 * 1024 = _
  rw [Nat.mul_one]

/-- Bytes one job's first blocks occupy. -/
def slotBytes (shape : Argon2Shape) : Nat :=
  INPUT_BLOCKS_PER_JOB * ARGON2_BLOCK_SIZE * shape.lanes.toNat

/-- `out[at..at + bytes.len()].copy_from_slice(bytes)` -/
def splice (out : List UInt8) (at' : Nat) (bytes : List UInt8) : List UInt8 :=
  out.take at' ++ bytes ++ out.drop (at' + bytes.length)

section

-- `Blake2bVar` of the `blake2` crate: an output length, and the inputs it is fed in order.
variable (blake2bVar : Nat → List (List UInt8) → List UInt8)

/-- The loop of `digest_long` over the rest of its output. -/
def digestLinks (buffer : List UInt8) (toProduce : Nat) : List UInt8 :=
  if 64 < toProduce then
    let buffer := blake2bVar BLAKE2B_OUT_BYTES [buffer]
    buffer.take (BLAKE2B_OUT_BYTES / 2) ++ digestLinks buffer (toProduce - 32)
  else blake2bVar toProduce [buffer]
termination_by toProduce

/-- `digest_long`: every byte of an output of `outLen` bytes. -/
def digestLong (outLen : Nat) (input : List UInt8) : List UInt8 :=
  let lengthPrefix := le32 outLen
  if outLen ≤ BLAKE2B_OUT_BYTES then blake2bVar outLen [lengthPrefix, input]
  else
    let buffer := blake2bVar BLAKE2B_OUT_BYTES [lengthPrefix, input]
    let half := BLAKE2B_OUT_BYTES / 2
    buffer.take half ++ digestLinks blake2bVar buffer (outLen - half)

def initialHash (password salt : List UInt8) (shape : Argon2Shape) : List UInt8 :=
  let header := [shape.lanes.toNat, shape.outputLength.toNat, shape.memoryCost.toNat,
    shape.passes.toNat, shape.version.toNat, shape.type_.toNat, password.length].flatMap le32
  let emptyLengths := List.replicate 8 0
  blake2bVar PREHASH_DIGEST_LENGTH [header, password, le32 salt.length, salt, emptyLengths]

/-- Block 0 of every lane, then block 1 of every lane. -/
def fillFirstBlocks (out password salt : List UInt8) (shape : Argon2Shape) :
    Except String (List UInt8) :=
  let want := slotBytes shape
  if out.length ≠ want then
    .error s!"first-block slot is {out.length} bytes, want {want}"
  else if shape.lanes = 0 then .error "shape must have at least one lane"
  else
    let seed := initialHash blake2bVar password salt shape
    .ok ((List.range 2).foldl (fun s blockIndex =>
      (List.range shape.lanes.toNat).foldl (fun s lane =>
        (splice s.1 s.2 (digestLong blake2bVar ARGON2_BLOCK_SIZE
          (seed ++ le32 blockIndex ++ le32 lane)), s.2 + ARGON2_BLOCK_SIZE)) s) (out, 0)).1

/-- The last blocks of the lanes, XORed together. -/
def xorLanes (lastBlock : List UInt8) : List UInt8 :=
  (List.range ARGON2_BLOCK_SIZE).map fun i =>
    (List.range (lastBlock.length / ARGON2_BLOCK_SIZE)).foldl
      (fun accumulated lane => accumulated ^^^ lastBlock.getD (lane * ARGON2_BLOCK_SIZE + i) 0) 0

/-- `finalize` into an output of `outLen` bytes. -/
def finalize (lastBlock : List UInt8) (outLen : Nat) : Except String (List UInt8) :=
  if lastBlock.isEmpty || lastBlock.length % ARGON2_BLOCK_SIZE != 0 then
    .error s!"final block is {lastBlock.length} bytes, want a multiple of 1024"
  else if lastBlock.length = ARGON2_BLOCK_SIZE then .ok (digestLong blake2bVar outLen lastBlock)
  else .ok (digestLong blake2bVar outLen (xorLanes lastBlock))

end

/-! ## The host computes Argon2's hashes -/

/-- The documented behaviour of `Blake2bVar`: BLAKE2b of what it was fed. -/
def IsBlake2b (blake2bVar : Nat → List (List UInt8) → List UInt8) : Prop :=
  ∀ outLen parts, 1 ≤ outLen → outLen ≤ 64 →
    blake2bVar outLen parts = Blake2b.hash outLen parts.flatten

section

variable {blake2bVar : Nat → List (List UInt8) → List UInt8} (hb : IsBlake2b blake2bVar)

include hb

theorem digestLinks_eq (buffer : List UInt8) {toProduce : Nat} (h : 0 < toProduce) :
    digestLinks blake2bVar buffer toProduce = links buffer toProduce := by
  induction buffer, toProduce using links.induct with
  | case1 buffer toProduce hlong ih =>
    have hlink : blake2bVar BLAKE2B_OUT_BYTES [buffer] = Blake2b.hash 64 buffer := by
      rw [hb _ _ (by decide) (by decide), List.flatten_singleton]
      rfl
    rw [digestLinks, if_pos hlong, links_long hlong, ← ih (by omega)]
    dsimp only
    rw [hlink]
    rfl
  | case2 buffer toProduce hshort =>
    rw [digestLinks, if_neg hshort, links_short hshort, hb _ _ h (by omega), List.flatten_singleton]

theorem digestLong_eq {outLen : Nat} (input : List UInt8) (h : 0 < outLen) :
    digestLong blake2bVar outLen input = longHash outLen input := by
  unfold digestLong
  dsimp only
  split_ifs with hshort
  · have hle : outLen ≤ 64 := hshort
    rw [hb _ _ h hle, longHash, if_pos hle]
    simp
  · have hlong : 64 < outLen := not_le.1 hshort
    have hfirst : blake2bVar BLAKE2B_OUT_BYTES [le32 outLen, input] =
        Blake2b.hash 64 (le32 outLen ++ input) := by
      rw [hb _ _ (by decide) (by decide)]
      simp [BLAKE2B_OUT_BYTES]
    rw [hfirst, digestLinks_eq hb _ (Nat.sub_pos_of_lt (by
      unfold BLAKE2B_OUT_BYTES
      omega)), longHash_eq_links hlong]
    rfl

theorem initialHash_eq (password salt : List UInt8) (shape : Argon2Shape) :
    initialHash blake2bVar password salt shape = H0 shape.params password salt := by
  unfold initialHash H0
  rw [hb _ _ (by decide) (by decide)]
  refine congrArg (Blake2b.hash 64) ?_
  have hzero : (List.replicate 8 0 : List UInt8) = le32 0 ++ le32 0 := by decide
  simp [Argon2Shape.params, hzero]

end

/-- Spliced one behind the other, blocks of one size stand in a row. -/
theorem foldl_splice {α : Type} {f : α → List UInt8} {size : Nat} (hf : ∀ x, (f x).length = size)
    (xs : List α) (out : List UInt8) (written : Nat)
    (hout : written + size * xs.length ≤ out.length) :
    xs.foldl (fun s x => (splice s.1 s.2 (f x), s.2 + size)) (out, written) =
      (splice out written (xs.flatMap f), written + size * xs.length) := by
  induction xs generalizing out written with
  | nil => simp [splice]
  | cons x xs ih =>
    rw [List.length_cons, Nat.mul_succ] at hout
    have htake : (out.take written).length = written := by
      rw [List.length_take]
      omega
    have hfront : (out.take written ++ f x).length = written + size := by
      rw [List.length_append, htake, hf]
    have hlen : (splice out written (f x)).length = out.length := by
      unfold splice
      rw [List.length_append, hfront, List.length_drop, hf]
      omega
    have hsplice : splice (splice out written (f x)) (written + size) (xs.flatMap f) =
        splice out written (f x ++ xs.flatMap f) := by
      have hdrop : (splice out written (f x)).drop (written + size + (xs.flatMap f).length) =
          out.drop (written + (f x ++ xs.flatMap f).length) := by
        unfold splice
        rw [← hfront, ← List.drop_drop, List.drop_left, List.drop_drop, List.length_append, hf,
          Nat.add_assoc]
      have htake' : (splice out written (f x)).take (written + size) =
          out.take written ++ f x := by
        unfold splice
        rw [← hfront, List.take_left]
      unfold splice at hdrop htake' ⊢
      rw [hdrop, htake']
      simp only [List.append_assoc]
    rw [List.foldl_cons, ih _ _ (by rw [hlen]; omega), hsplice, List.flatMap_cons,
      List.length_cons, Nat.mul_succ, Nat.add_assoc, Nat.add_comm size]

theorem splice_all {out bytes : List UInt8} (h : bytes.length = out.length) :
    splice out 0 bytes = bytes := by
  simp [splice, h]

/-- Block `index` of every lane, as RFC 9106 has them. -/
def laneBlocks (shape : Argon2Shape) (password salt : List UInt8) (index : Nat) : List UInt8 :=
  (List.range shape.lanes.toNat).flatMap (firstBlock shape.params password salt index)

theorem laneBlocks_length (shape : Argon2Shape) (password salt : List UInt8) (index : Nat) :
    (laneBlocks shape password salt index).length = 1024 * shape.lanes.toNat := by
  have hblock : ∀ lane ∈ List.range shape.lanes.toNat,
      (firstBlock shape.params password salt index lane).length = 1024 :=
    fun lane _ => longHash_length _ _
  unfold laneBlocks
  rw [List.length_flatMap, List.map_congr_left hblock]
  simp [Nat.mul_comm]

/-- The first blocks of a job. -/
def firstBlocks (shape : Argon2Shape) (password salt : List UInt8) : List UInt8 :=
  [0, 1].flatMap (laneBlocks shape password salt)

theorem firstBlocks_length (shape : Argon2Shape) (password salt : List UInt8) :
    (firstBlocks shape password salt).length = slotBytes shape := by
  simp only [firstBlocks, List.flatMap_cons, List.flatMap_nil, List.length_append,
    laneBlocks_length, List.length_nil]
  unfold slotBytes INPUT_BLOCKS_PER_JOB ARGON2_BLOCK_SIZE
  omega

/-- A slot of the right size is filled with the first blocks, whatever stood in it. -/
theorem fillFirstBlocks_eq {blake2bVar : Nat → List (List UInt8) → List UInt8}
    (hb : IsBlake2b blake2bVar) {out : List UInt8} (password salt : List UInt8)
    {shape : Argon2Shape} (hout : out.length = slotBytes shape) (hlanes : shape.lanes ≠ 0) :
    fillFirstBlocks blake2bVar out password salt shape = .ok (firstBlocks shape password salt) := by
  have hlong : ∀ input, digestLong blake2bVar ARGON2_BLOCK_SIZE input = longHash 1024 input :=
    fun input => digestLong_eq hb input (by decide)
  have hsize : out.length = 1024 * shape.lanes.toNat * 2 := by
    rw [hout]
    unfold slotBytes INPUT_BLOCKS_PER_JOB ARGON2_BLOCK_SIZE
    omega
  -- one pass over the lanes
  have hpass : ∀ index (s : List UInt8 × Nat), s.2 + 1024 * shape.lanes.toNat ≤ s.1.length →
      (List.range shape.lanes.toNat).foldl (fun s lane => (splice s.1 s.2
        (firstBlock shape.params password salt index lane), s.2 + 1024)) s =
      (splice s.1 s.2 (laneBlocks shape password salt index),
        s.2 + 1024 * shape.lanes.toNat) := by
    intro index s hfits
    have := foldl_splice (f := firstBlock shape.params password salt index)
      (fun lane => longHash_length _ _) (List.range shape.lanes.toNat) s.1 s.2
      (by rw [List.length_range]; exact hfits)
    rw [List.length_range] at this
    exact this
  have hsecond : (splice out 0 (laneBlocks shape password salt 0)).length = out.length := by
    unfold splice
    rw [List.length_append, List.length_append, List.length_take, List.length_drop,
      laneBlocks_length]
    omega
  unfold fillFirstBlocks
  dsimp only
  rw [if_neg (not_not.2 hout), if_neg hlanes]
  simp only [hlong, initialHash_eq hb]
  have hpasses : (List.range 2).foldl (fun s index => (List.range shape.lanes.toNat).foldl
      (fun s lane => (splice s.1 s.2 (firstBlock shape.params password salt index lane),
        s.2 + 1024)) s) (out, 0) =
      [0, 1].foldl (fun s index => (splice s.1 s.2 (laneBlocks shape password salt index),
        s.2 + 1024 * shape.lanes.toNat)) (out, 0) := by
    rw [show List.range 2 = [0, 1] from rfl, List.foldl_cons, hpass 0 _ (by dsimp only; omega),
      List.foldl_cons, hpass 1 _ (by dsimp only; rw [hsecond]; omega)]
    rfl
  have hout' := foldl_splice (laneBlocks_length shape password salt) [0, 1] out 0
    (by rw [hsize]; simp)
  refine congrArg Except.ok ((congrArg Prod.fst (hpasses.trans hout')).trans (splice_all ?_))
  rw [hout]
  exact firstBlocks_length shape password salt

end TreeMiner.Host
