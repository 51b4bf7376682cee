import Mathlib.Algebra.GroupWithZero.Nat
import Mathlib.Data.Fintype.Basic
import Mathlib.Tactic.FinCases

/-! Argon2id, version 1.3, with one lane and one pass: the compression function, the
addressing of both halves of the pass, and the blocks it fills (RFC 9106, 3.4 to 3.6). -/

namespace TreeMiner.Lib.Argon2

instance neZero_16 : NeZero 16 := ⟨by decide⟩

instance neZero_128 : NeZero 128 := ⟨by decide⟩

/-- 128 words of 64 bits. -/
abbrev Block := Fin 128 → UInt64

/-! ## The permutation -/

structure Quad where
  a : UInt64
  b : UInt64
  c : UInt64
  d : UInt64
deriving DecidableEq, Repr

def Quad.get (q : Quad) : Fin 4 → UInt64
  | 0 => q.a
  | 1 => q.b
  | 2 => q.c
  | 3 => q.d

/-- The low 32 bits. -/
def trunc (x : UInt64) : UInt64 := x.toUInt32.toUInt64

def rotr (x n : UInt64) : UInt64 := (x >>> n) ||| (x <<< (64 - n))

def mulAdd (x y : UInt64) : UInt64 := x + y + 2 * trunc x * trunc y

/-- The BLAKE2b quarter round with the multiplication of Argon2. -/
def GB (a b c d : UInt64) : Quad :=
  let a := mulAdd a b
  let d := rotr (d ^^^ a) 32
  let c := mulAdd c d
  let b := rotr (b ^^^ c) 24
  let a := mulAdd a b
  let d := rotr (d ^^^ a) 16
  let c := mulAdd c d
  let b := rotr (b ^^^ c) 63
  ⟨a, b, c, d⟩

/-- `GB` in place on four words of the 4x4 matrix. -/
def quarter (v : Fin 16 → UInt64) (i j k l : Fin 16) : Fin 16 → UInt64 :=
  let q := GB (v i) (v j) (v k) (v l)
  Function.update (Function.update (Function.update (Function.update v i q.a) j q.b) k q.c) l q.d

/-- The round function on sixteen words: the columns, then the diagonals. -/
def P (v : Fin 16 → UInt64) : Fin 16 → UInt64 :=
  let v := quarter v 0 4 8 12
  let v := quarter v 1 5 9 13
  let v := quarter v 2 6 10 14
  let v := quarter v 3 7 11 15
  let v := quarter v 0 5 10 15
  let v := quarter v 1 6 11 12
  let v := quarter v 2 7 8 13
  quarter v 3 4 9 14

/-- Eight lines of sixteen words that make up a block. -/
structure View where
  pos : Fin 8 → Fin 16 → Fin 128
  line : Fin 128 → Fin 8
  off : Fin 128 → Fin 16
  line_pos : ∀ i k, line (pos i k) = i
  off_pos : ∀ i k, off (pos i k) = k

/-- Row `i` holds the 16-byte registers `8 i .. 8 i + 7`. -/
def rows : View where
  pos i k := ⟨16 * i.val + k.val, by omega⟩
  line w := ⟨w.val / 16, by omega⟩
  off w := ⟨w.val % 16, by omega⟩
  line_pos i k := Fin.ext (by dsimp only; omega)
  off_pos i k := Fin.ext (by dsimp only; omega)

/-- Column `i` holds the registers `i, 8 + i, .., 56 + i`. -/
def columns : View where
  pos i k := ⟨16 * (k.val / 2) + 2 * i.val + k.val % 2, by omega⟩
  line w := ⟨w.val % 16 / 2, by omega⟩
  off w := ⟨2 * (w.val / 16) + w.val % 2, by omega⟩
  line_pos i k := Fin.ext (by dsimp only; omega)
  off_pos i k := Fin.ext (by dsimp only; omega)

/-- A function of sixteen words, on every line. -/
def View.along (V : View) (f : (Fin 16 → UInt64) → Fin 16 → UInt64) (B : Block) : Block :=
  fun w => f (fun k => B (V.pos (V.line w) k)) (V.off w)

def permute (B : Block) : Block := columns.along P (rows.along P B)

def xor (X Y : Block) : Block := fun w => X w ^^^ Y w

/-- The compression function `G`. -/
def compress (X Y : Block) : Block :=
  let R := xor X Y
  xor (permute R) R

/-! ## Filling the memory -/

def zero : Block := fun _ => 0

/-- Pass 0, lane 0, the slice, the memory size, one pass, type 2, and the counter. -/
def inputBlock (slice memory counter : Nat) : Block := fun w =>
  match w.val with
  | 0 => 0
  | 1 => 0
  | 2 => UInt64.ofNat slice
  | 3 => UInt64.ofNat memory
  | 4 => 1
  | 5 => 2
  | 6 => UInt64.ofNat counter
  | _ => 0

def addressBlock (slice memory counter : Nat) : Block :=
  compress zero (compress zero (inputBlock slice memory counter))

/-- Which of `area` blocks the word `J1` refers to. -/
def refIndex (area j1 : Nat) : Nat := area - 1 - area * (j1 * j1 / 2 ^ 32) / 2 ^ 32

section Fill

variable (segment : Nat) (b0 b1 : Block)

/-- The word whose low half is `J1`: of the address block in the slices 0 and 1, of the
block before in the slices 2 and 3. -/
def refWord (B : Nat → Block) (j : Nat) : UInt64 :=
  if j / segment < 2 then
    addressBlock (j / segment) (4 * segment) (j % segment / 128 + 1)
      ⟨j % segment % 128, Nat.mod_lt _ (by decide)⟩
  else B (j - 1) 0

/-- All blocks but the one before may be referred to. -/
def nextBlock (B : Nat → Block) (j : Nat) : Block :=
  compress (B (j - 1)) (B (refIndex (j - 1) (refWord segment B j).toUInt32.toNat))

/-- The blocks after `n` of them are filled. -/
def fill : Nat → Nat → Block
  | 0 => fun i => if i = 0 then b0 else b1
  | n + 1 => Function.update (fill n) (n + 2) (nextBlock segment (fill n) (n + 2))

/-- The blocks of the memory of `4 * segment` blocks. -/
def blocks : Nat → Block := fill segment b0 b1 (4 * segment - 2)

end Fill

/-! ## Rounds in parallel -/

/-- `GB` on the four words `mates k`, of which word `k` is number `k / 4`. -/
def mix (mates : Fin 16 → Fin 4 → Fin 16) (v : Fin 16 → UInt64) (k : Fin 16) : UInt64 :=
  (GB (v (mates k 0)) (v (mates k 1)) (v (mates k 2)) (v (mates k 3))).get ⟨k.val / 4, by omega⟩

def columnMates (k : Fin 16) (r : Fin 4) : Fin 16 := ⟨4 * r.val + k.val % 4, by omega⟩

def diagonalMates (k : Fin 16) (r : Fin 4) : Fin 16 :=
  ⟨4 * r.val + (k.val % 4 + 4 - k.val / 4 + r.val) % 4, by omega⟩

theorem P_eq (v : Fin 16 → UInt64) : P v = mix diagonalMates (mix columnMates v) := by
  funext k
  fin_cases k <;> rfl

theorem View.along_comp (V : View) (f g : (Fin 16 → UInt64) → Fin 16 → UInt64) (B : Block) :
    V.along (fun v => g (f v)) B = V.along g (V.along f B) := by
  funext w
  unfold along
  simp only [V.line_pos, V.off_pos]

/-- Four rounds: the columns and the diagonals of every row, then of every column. -/
theorem permute_eq (B : Block) :
    permute B = columns.along (mix diagonalMates) (columns.along (mix columnMates)
      (rows.along (mix diagonalMates) (rows.along (mix columnMates) B))) := by
  have hP (V : View) (B : Block) :
      V.along P B = V.along (mix diagonalMates) (V.along (mix columnMates) B) := by
    rw [funext P_eq]
    exact V.along_comp _ _ B
  unfold permute
  rw [hP, hP]

theorem compress_zero (Y : Block) : compress zero Y = xor (permute Y) Y := by
  have h : xor zero Y = Y := by
    funext w
    simp [xor, zero]
  unfold compress
  rw [h]

/-! ## The blocks as they are filled -/

section Fill

variable {segment : Nat} {b0 b1 : Block}

theorem fill_succ_of_ne {n i : Nat} (h : i ≠ n + 2) :
    fill segment b0 b1 (n + 1) i = fill segment b0 b1 n i := Function.update_of_ne h _ _

theorem fill_succ_self (n : Nat) :
    fill segment b0 b1 (n + 1) (n + 2) = nextBlock segment (fill segment b0 b1 n) (n + 2) :=
  Function.update_self _ _ _

/-- A block once filled stays. -/
theorem fill_of_le {m n i : Nat} (hi : i < n + 2) (hle : n ≤ m) :
    fill segment b0 b1 m i = fill segment b0 b1 n i := by
  induction m, hle using Nat.le_induction with
  | base => rfl
  | succ m hle ih => rw [fill_succ_of_ne (by omega), ih]

theorem refIndex_lt {area j1 : Nat} (h : 0 < area) : refIndex area j1 < area := by
  unfold refIndex
  omega

end Fill

end TreeMiner.Lib.Argon2
