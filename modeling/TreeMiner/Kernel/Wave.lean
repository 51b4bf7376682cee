import TreeMiner.Lib.Argon2

/-! The block permutation of the device kernels: a block spread over 32 work-items, four
words each, and the shuffles between them. A value of the wavefront is a function of the
work-item; a shuffle reads the value another work-item holds. -/

namespace TreeMiner.Kernel

open Lib Lib.Argon2

def THREADS_PER_LANE : Nat := 32

/-- One value for each work-item. -/
abbrev Wave (α : Type) := Fin 32 → α

/-! ## Shuffles -/

/-- Read `value` from lane `src` of the group of 32. -/
def shfl32 (value : Wave UInt32) (src : Wave Nat) : Wave UInt32 :=
  fun t => value ⟨src t % 32, Nat.mod_lt _ (by decide)⟩

def shflXor32 (value : Wave UInt32) (mask : Nat) : Wave UInt32 :=
  shfl32 value fun t => t.val ^^^ mask

/-- Two 32-bit shuffles. -/
def shfl64 (value : Wave UInt64) (src : Wave Nat) : Wave UInt64 :=
  let lo := shfl32 (fun t => (value t).toUInt32) src
  let hi := shfl32 (fun t => (value t >>> 32).toUInt32) src
  fun t => ((hi t).toUInt64 <<< 32) ||| (lo t).toUInt64

def shflXor64 (value : Wave UInt64) (mask : Nat) : Wave UInt64 :=
  let lo := shflXor32 (fun t => (value t).toUInt32) mask
  let hi := shflXor32 (fun t => (value t >>> 32).toUInt32) mask
  fun t => ((hi t).toUInt64 <<< 32) ||| (lo t).toUInt64

theorem halves (x : UInt64) :
    ((x >>> 32).toUInt32.toUInt64 <<< 32) ||| x.toUInt32.toUInt64 = x := by
  apply UInt64.toBitVec_inj.1
  apply BitVec.eq_of_getElem_eq
  intro i hi
  by_cases h : i < 32
  · simp [-UInt64.toUInt64_toUInt32, h, BitVec.getLsbD_eq_getElem hi]
  · have h32 : i - 32 < 32 := by omega
    have hadd : 32 + (i - 32) = i := by omega
    simp [-UInt64.toUInt64_toUInt32, h, h32, hadd, BitVec.getLsbD_eq_getElem hi]

theorem shfl64_apply (value : Wave UInt64) (src : Wave Nat) (t : Fin 32) :
    shfl64 value src t = value ⟨src t % 32, Nat.mod_lt _ (by decide)⟩ :=
  halves _

theorem shflXor64_apply (value : Wave UInt64) (mask : Nat) (t : Fin 32) :
    shflXor64 value mask t = value ⟨(t.val ^^^ mask) % 32, Nat.mod_lt _ (by decide)⟩ :=
  halves _

/-! ## Blocks -/

/-- A work-item's quarter of the block. -/
structure BlockTh where
  a : UInt64
  b : UInt64
  c : UInt64
  d : UInt64
deriving DecidableEq, Repr

namespace BlockTh

/-- `block_th_get_uniform` -/
def getUniform (block : BlockTh) (index : Nat) : UInt64 :=
  match index with
  | 0 => block.a
  | 1 => block.b
  | 2 => block.c
  | _ => block.d

def xor (block other : BlockTh) : BlockTh :=
  ⟨block.a ^^^ other.a, block.b ^^^ other.b, block.c ^^^ other.c, block.d ^^^ other.d⟩

end BlockTh

/-- The mixing addition. -/
def f (x y : UInt64) : UInt64 :=
  let product := x.toUInt32.toUInt64 * y.toUInt32.toUInt64
  x + y + product * 2

def g (block : BlockTh) : BlockTh :=
  let a := block.a
  let b := block.b
  let c := block.c
  let d := block.d
  let a := f a b
  let d := rotr (d ^^^ a) 32
  let c := f c d
  let b := rotr (b ^^^ c) 24
  let a := f a b
  let d := rotr (d ^^^ a) 16
  let c := f c d
  let b := rotr (b ^^^ c) 63
  ⟨a, b, c, d⟩

/-- The four-way rotation that turns rows of registers into columns. -/
def transpose (block : Wave BlockTh) : Wave BlockTh :=
  let g1 : Wave Bool := fun t => t.val &&& 0x4 != 0
  let g2 : Wave Bool := fun t => t.val &&& 0x8 != 0
  let x1 : Wave UInt64 := fun t =>
    if g2 t then (if g1 t then (block t).c else (block t).d)
    else if g1 t then (block t).a else (block t).b
  let x2 : Wave UInt64 := fun t =>
    if g2 t then (if g1 t then (block t).b else (block t).a)
    else if g1 t then (block t).d else (block t).c
  let x3 : Wave UInt64 := fun t =>
    if g2 t then (if g1 t then (block t).a else (block t).b)
    else if g1 t then (block t).c else (block t).d
  let x1 := shflXor64 x1 0x4
  let x2 := shflXor64 x2 0x8
  let x3 := shflXor64 x3 0xC
  fun t =>
    ⟨if g2 t then (if g1 t then x3 t else x2 t) else if g1 t then x1 t else (block t).a,
     if g2 t then (if g1 t then x2 t else x3 t) else if g1 t then (block t).b else x1 t,
     if g2 t then (if g1 t then x1 t else (block t).c) else if g1 t then x3 t else x2 t,
     if g2 t then (if g1 t then (block t).d else x1 t) else if g1 t then x2 t else x3 t⟩

/-- `b`, `c` and `d` move between work-items; `a` stays. -/
def moveColumns (block : Wave BlockTh) (srcB : Wave Nat) (maskC : Nat) (srcD : Wave Nat) :
    Wave BlockTh :=
  let b := shfl64 (fun t => (block t).b) srcB
  let c := shflXor64 (fun t => (block t).c) maskC
  let d := shfl64 (fun t => (block t).d) srcD
  fun t => ⟨(block t).a, b t, c t, d t⟩

/-- The lane `n` further in its group of four. -/
def srcRow (n : Nat) : Wave Nat := fun t => (t.val &&& 0x1c) ||| ((t.val + n) &&& 0x3)

/-- The same for the groups of four that make up a column. -/
def srcColumn (n : Nat) : Wave Nat := fun t =>
  let lo := (t.val &&& 0x1) ||| ((t.val &&& 0x10) >>> 3)
  (((lo + n) &&& 0x2) <<< 3) ||| (t.val &&& 0xe) ||| ((lo + n) &&& 0x1)

def shift1Shuffle (block : Wave BlockTh) : Wave BlockTh :=
  moveColumns block (srcRow 1) 0x2 (srcRow 3)

def unshift1Shuffle (block : Wave BlockTh) : Wave BlockTh :=
  moveColumns block (srcRow 3) 0x2 (srcRow 1)

def shift2Shuffle (block : Wave BlockTh) : Wave BlockTh :=
  moveColumns block (srcColumn 1) 0x10 (srcColumn 3)

def unshift2Shuffle (block : Wave BlockTh) : Wave BlockTh :=
  moveColumns block (srcColumn 3) 0x10 (srcColumn 1)

/-- The rows, then the columns. -/
def shuffleBlock (block : Wave BlockTh) : Wave BlockTh :=
  let block := transpose block
  let block := fun t => g (block t)
  let block := shift1Shuffle block
  let block := fun t => g (block t)
  let block := unshift1Shuffle block
  let block := transpose block
  let block := fun t => g (block t)
  let block := shift2Shuffle block
  let block := fun t => g (block t)
  unshift2Shuffle block

/-! ## Where the words are -/

/-- Register `q` of work-item `t` holds word `pos t q` of the block. -/
def Holds (pos : Fin 32 → Fin 4 → Fin 128) (w : Wave BlockTh) (B : Block) : Prop :=
  ∀ t q, (w t).getUniform q.val = B (pos t q)

/-- As `load` and `store` lay it out. -/
def plain (t : Fin 32) (q : Fin 4) : Fin 128 := ⟨32 * q.val + t.val, by omega⟩

/-- A column of a row in each work-item. -/
def rowColumn (t : Fin 32) (q : Fin 4) : Fin 128 :=
  ⟨32 * (t.val / 4 % 4) + 16 * (t.val / 16) + 4 * q.val + t.val % 4, by omega⟩

/-- A diagonal of a row. -/
def rowDiagonal (t : Fin 32) (q : Fin 4) : Fin 128 :=
  ⟨32 * (t.val / 4 % 4) + 16 * (t.val / 16) + 4 * q.val + (t.val + q.val) % 4, by omega⟩

/-- A diagonal of a column: `2 * (t / 16) + t % 2` numbers the diagonals. -/
def columnDiagonal (t : Fin 32) (q : Fin 4) : Fin 128 :=
  ⟨32 * q.val + 16 * ((2 * (t.val / 16) + t.val % 2 + q.val) % 4 / 2) + 2 * (t.val % 16 / 2) +
    (2 * (t.val / 16) + t.val % 2 + q.val) % 4 % 2, by omega⟩

theorem f_eq_mulAdd (x y : UInt64) : f x y = mulAdd x y := by
  unfold f mulAdd trunc
  rw [UInt64.mul_assoc, UInt64.mul_comm 2]

theorem getUniform_g (b : BlockTh) (q : Fin 4) :
    (g b).getUniform q.val = (GB (b.getUniform 0) (b.getUniform 1) (b.getUniform 2)
      (b.getUniform 3)).get q := by
  have h : g b = ⟨(GB b.a b.b b.c b.d).a, (GB b.a b.b b.c b.d).b, (GB b.a b.b b.c b.d).c,
      (GB b.a b.b b.c b.d).d⟩ := by
    unfold g GB
    simp only [f_eq_mulAdd]
  rw [h]
  fin_cases q <;> rfl

/-- `g` in every work-item is a round on the words it holds. -/
theorem Holds.g {pos : Fin 32 → Fin 4 → Fin 128} {w : Wave BlockTh} {B : Block} {V : View}
    {mates : Fin 16 → Fin 4 → Fin 16} (h : Holds pos w B)
    (hmates : ∀ t q r, V.pos (V.line (pos t q)) (mates (V.off (pos t q)) r) = pos t r)
    (hslot : ∀ t q, (V.off (pos t q)).val / 4 = q.val) :
    Holds pos (fun t => Kernel.g (w t)) (V.along (mix mates) B) := by
  intro t q
  have hq : (⟨(V.off (pos t q)).val / 4, by omega⟩ : Fin 4) = q := Fin.ext (hslot t q)
  unfold View.along mix
  rw [getUniform_g]
  simp only [hmates, hq, ← h t]
  rfl

/-- Where `transpose` takes register `q` of work-item `t` from. -/
theorem getUniform_transpose (w : Wave BlockTh) (t : Fin 32) (q : Fin 4) :
    (transpose w t).getUniform q.val =
      (w ⟨t.val % 4 + 4 * q.val + 16 * (t.val / 16), by omega⟩).getUniform (t.val / 4 % 4) := by
  unfold transpose
  simp only [shflXor64_apply]
  fin_cases t <;> fin_cases q <;> rfl

/-- The work-item each register of `moveColumns` comes from. -/
def srcLane (srcB : Wave Nat) (maskC : Nat) (srcD : Wave Nat) (t : Fin 32) (q : Fin 4) : Fin 32 :=
  ⟨(match q with
    | 0 => t.val
    | 1 => srcB t
    | 2 => t.val ^^^ maskC
    | 3 => srcD t) % 32, Nat.mod_lt _ (by decide)⟩

theorem getUniform_moveColumns (w : Wave BlockTh) (srcB srcD : Wave Nat) (maskC : Nat)
    (t : Fin 32) (q : Fin 4) :
    (moveColumns w srcB maskC srcD t).getUniform q.val =
      (w (srcLane srcB maskC srcD t q)).getUniform q.val := by
  unfold moveColumns srcLane
  simp only [shfl64_apply, shflXor64_apply]
  fin_cases q
  · simp only [Nat.mod_eq_of_lt t.isLt]
    rfl
  · rfl
  · rfl
  · rfl

section Moves

variable {w : Wave BlockTh} {B : Block} {pos pos' : Fin 32 → Fin 4 → Fin 128}

theorem Holds.transpose (h : Holds pos w B)
    (hpos : ∀ t q : Fin _, pos ⟨t.val % 4 + 4 * q.val + 16 * (t.val / 16), by omega⟩
      ⟨t.val / 4 % 4, by omega⟩ = pos' t q) : Holds pos' (Kernel.transpose w) B := by
  intro t q
  rw [getUniform_transpose, ← hpos]
  exact h _ ⟨t.val / 4 % 4, by omega⟩

theorem Holds.moveColumns {srcB srcD : Wave Nat} {maskC : Nat} (h : Holds pos w B)
    (hpos : ∀ t q, pos (srcLane srcB maskC srcD t q) q = pos' t q) :
    Holds pos' (Kernel.moveColumns w srcB maskC srcD) B := by
  intro t q
  rw [getUniform_moveColumns, ← hpos]
  exact h _ q

/-- `shuffle_block` is the permutation of the block it holds. -/
theorem shuffleBlock_holds (h : Holds plain w B) : Holds plain (shuffleBlock w) (permute B) := by
  rw [permute_eq]
  have h1 : Holds rowColumn (Kernel.transpose w) B := h.transpose (by decide)
  have h2 := @Holds.g _ _ _ rows columnMates h1 (by decide) (by decide)
  have h3 : Holds rowDiagonal (shift1Shuffle _) _ := h2.moveColumns (by decide)
  have h4 := @Holds.g _ _ _ rows diagonalMates h3 (by decide) (by decide)
  have h5 : Holds rowColumn (unshift1Shuffle _) _ := h4.moveColumns (by decide)
  have h6 : Holds plain (Kernel.transpose _) _ := h5.transpose (by decide)
  have h7 := @Holds.g _ _ _ columns columnMates h6 (by decide) (by decide)
  have h8 : Holds columnDiagonal (shift2Shuffle _) _ := h7.moveColumns (by decide)
  have h9 := @Holds.g _ _ _ columns diagonalMates h8 (by decide) (by decide)
  have h10 : Holds plain (unshift2Shuffle _) _ := h9.moveColumns (by decide)
  exact h10

end Moves

end TreeMiner.Kernel
