import Mathlib.Algebra.Order.Floor.Semiring
import Mathlib.Data.Rat.Floor
import Mathlib.Tactic.Linarith
import Mathlib.Tactic.NormNum
import TreeMiner.Host.Argon2

/-! GPU batch sizing: how many jobs the free memory is taken for, against the bytes the pool
has for each of them. -/

namespace TreeMiner.Host

def DEFAULT_MEMORY_RESERVE_BYTES : Nat := 100 * 1024 * 1024

def HIP_RESERVE_FLOOR_BYTES : Nat := 1024 * 1024 * 1024

structure BatchSizeDecision where
  memoryLimitedBatchSize : Nat
  tunedBatchSize : Nat
  selectedBatchSize : Nat
  explicitLimitApplied : Bool
  tunedDefaultApplied : Bool
deriving DecidableEq, Repr

def BatchSizeDecision.default : BatchSizeDecision := ⟨0, 0, 0, false, false⟩

inductive GpuRuntimeKind
  | cuda
  | hip
deriving DecidableEq, Repr

def effectiveReserveBytes (runtime : GpuRuntimeKind) (freeMemoryBytes reserveBytes : Nat) : Nat :=
  match runtime with
  | .cuda => reserveBytes
  | .hip => max (max reserveBytes HIP_RESERVE_FLOOR_BYTES) (freeMemoryBytes / 16)

/-- What an attempt is taken to need. -/
def bytesPerAttempt (difficulty : UInt32) : ℚ := difficulty.toNat * 1024 * (1001 / 1000)

def estimateMemoryBatchLimit (runtime : GpuRuntimeKind) (freeMemoryBytes : Nat)
    (difficulty : UInt32) (reserveBytes : Nat) : Nat :=
  let reserve := effectiveReserveBytes runtime freeMemoryBytes reserveBytes
  if difficulty = 0 ∨ freeMemoryBytes ≤ reserve then 0
  else
    let available : ℚ := (freeMemoryBytes - reserve : Nat)
    ⌊available / bytesPerAttempt difficulty⌋₊

/-- Hand-tuned ceilings for the low difficulties; 0 is no ceiling. -/
def recommendedBatchSize (difficulty : UInt32) : Nat :=
  if difficulty ≤ 1 then 2048
  else if difficulty ≤ 8 then 4096
  else if difficulty ≤ 64 then 3072
  else 0

def selectBatchSize (runtime : GpuRuntimeKind) (freeMemoryBytes : Nat) (difficulty : UInt32)
    (explicitMaxBatchSize : Nat) : BatchSizeDecision :=
  let limit := estimateMemoryBatchLimit runtime freeMemoryBytes difficulty
    DEFAULT_MEMORY_RESERVE_BYTES
  let decision : BatchSizeDecision :=
    { BatchSizeDecision.default with memoryLimitedBatchSize := limit }
  if limit = 0 then decision
  else if 0 < explicitMaxBatchSize then
    { decision with selectedBatchSize := min limit explicitMaxBatchSize
                    explicitLimitApplied := true }
  else
    let decision : BatchSizeDecision :=
      { decision with tunedBatchSize := recommendedBatchSize difficulty }
    if 0 < decision.tunedBatchSize then
      { decision with selectedBatchSize := min limit decision.tunedBatchSize
                      tunedDefaultApplied := true }
    else { decision with selectedBatchSize := limit }

/-! ## Estimate and allocation -/

/-- What is left of the free memory. -/
def availableBytes (runtime : GpuRuntimeKind) (freeMemoryBytes : Nat) : Nat :=
  freeMemoryBytes - effectiveReserveBytes runtime freeMemoryBytes DEFAULT_MEMORY_RESERVE_BYTES

/-- The ceiling on a batch besides the memory: the operator's, or the tuned one. -/
def batchCeiling (difficulty : UInt32) (explicitMaxBatchSize : Nat) : Nat :=
  if 0 < explicitMaxBatchSize then explicitMaxBatchSize else recommendedBatchSize difficulty

/-- The pool of a selected batch stays clear of the reserve. -/
def BatchFits (runtime : GpuRuntimeKind) (freeMemoryBytes : Nat) (difficulty : UInt32)
    (explicitMaxBatchSize : Nat) : Prop :=
  let decision := selectBatchSize runtime freeMemoryBytes difficulty explicitMaxBatchSize
  decision.selectedBatchSize * (Argon2Shape.forDifficulty difficulty).jobBytes ≤
      availableBytes runtime freeMemoryBytes ∧
    (freeMemoryBytes ≤ effectiveReserveBytes runtime freeMemoryBytes
      DEFAULT_MEMORY_RESERVE_BYTES → decision.selectedBatchSize = 0)

/-- Below difficulty 8 a job still takes 8 KiB: then the ceiling has to fit, or the memory may
not even be taken for one job more than it holds. -/
def FloorRespected (runtime : GpuRuntimeKind) (freeMemoryBytes : Nat) (difficulty : UInt32)
    (explicitMaxBatchSize : Nat) : Prop :=
  let available := availableBytes runtime freeMemoryBytes
  difficulty = 0 ∨ 8 ≤ difficulty ∨
    batchCeiling difficulty explicitMaxBatchSize * 8192 ≤ available ∨
    available < ((available / 8192 + 1 : Nat) : ℚ) * bytesPerAttempt difficulty

variable {runtime : GpuRuntimeKind} {freeMemoryBytes : Nat} {difficulty : UInt32}
  {explicitMaxBatchSize : Nat}

theorem jobBytes_forDifficulty (difficulty : UInt32) :
    (Argon2Shape.forDifficulty difficulty).jobBytes = max difficulty.toNat 8 / 4 * 4 * 1024 :=
  Argon2Shape.jobBytes_eq rfl

theorem bytesPerAttempt_pos (h : difficulty ≠ 0) : 0 < bytesPerAttempt difficulty := by
  have hpos : 0 < difficulty.toNat := by
    rw [Nat.pos_iff_ne_zero]
    exact fun hzero => h (UInt32.toNat_inj.1 hzero)
  have hcast : (0 : ℚ) < difficulty.toNat := Nat.cast_pos.2 hpos
  unfold bytesPerAttempt
  positivity

theorem estimate_exhausted {reserveBytes : Nat}
    (h : freeMemoryBytes ≤ effectiveReserveBytes runtime freeMemoryBytes reserveBytes) :
    estimateMemoryBatchLimit runtime freeMemoryBytes difficulty reserveBytes = 0 := by
  unfold estimateMemoryBatchLimit
  exact if_pos (Or.inr h)

theorem estimate_zero {reserveBytes : Nat} :
    estimateMemoryBatchLimit runtime freeMemoryBytes 0 reserveBytes = 0 := by
  unfold estimateMemoryBatchLimit
  exact if_pos (Or.inl rfl)

/-- A batch is within the estimate exactly if the memory covers it at the estimated bytes. -/
theorem le_estimate_iff (h : difficulty ≠ 0) {batch : Nat} :
    batch ≤ estimateMemoryBatchLimit runtime freeMemoryBytes difficulty
        DEFAULT_MEMORY_RESERVE_BYTES ↔
      (batch : ℚ) * bytesPerAttempt difficulty ≤ availableBytes runtime freeMemoryBytes := by
  have hpos := bytesPerAttempt_pos h
  unfold estimateMemoryBatchLimit availableBytes
  dsimp only
  split_ifs with hnone
  · have hleft := hnone.resolve_left h
    rw [Nat.sub_eq_zero_of_le hleft, Nat.cast_zero, Nat.le_zero]
    constructor
    · rintro rfl
      rw [Nat.cast_zero, zero_mul]
    · intro hle
      by_contra hbatch
      have hcast : (0 : ℚ) < batch := Nat.cast_pos.2 (Nat.pos_of_ne_zero hbatch)
      exact absurd hle (not_le.2 (mul_pos hcast hpos))
  · have hnonneg : (0 : ℚ) ≤ (freeMemoryBytes - effectiveReserveBytes runtime freeMemoryBytes
        DEFAULT_MEMORY_RESERVE_BYTES : Nat) / bytesPerAttempt difficulty :=
      div_nonneg (Nat.cast_nonneg _) hpos.le
    rw [Nat.le_floor_iff hnonneg, le_div_iff₀ hpos]

theorem recommended_pos (h : difficulty ≤ 8) : 0 < recommendedBatchSize difficulty := by
  unfold recommendedBatchSize
  split_ifs <;> decide

/-- The selected batch is never past the estimate. -/
theorem selected_le (runtime : GpuRuntimeKind) (freeMemoryBytes : Nat) (difficulty : UInt32)
    (explicitMaxBatchSize : Nat) :
    (selectBatchSize runtime freeMemoryBytes difficulty explicitMaxBatchSize).selectedBatchSize ≤
      estimateMemoryBatchLimit runtime freeMemoryBytes difficulty
        DEFAULT_MEMORY_RESERVE_BYTES := by
  unfold selectBatchSize
  dsimp only
  split_ifs
  · exact Nat.zero_le _
  · exact Nat.min_le_left _ _
  · exact Nat.min_le_left _ _
  · exact le_rfl

/-- Where there is a ceiling, it is the smaller of the two. -/
theorem selected_eq_min (h : 0 < batchCeiling difficulty explicitMaxBatchSize) :
    (selectBatchSize runtime freeMemoryBytes difficulty explicitMaxBatchSize).selectedBatchSize =
      min (estimateMemoryBatchLimit runtime freeMemoryBytes difficulty
        DEFAULT_MEMORY_RESERVE_BYTES) (batchCeiling difficulty explicitMaxBatchSize) := by
  unfold batchCeiling at h ⊢
  unfold selectBatchSize
  dsimp only
  split_ifs at h ⊢ with hzero hexplicit
  · rw [hzero]
    exact (Nat.zero_min _).symm
  · rw [hzero]
    exact (Nat.zero_min _).symm
  · rfl
  · rfl

/-- From difficulty 8 on a job takes no more than it is estimated at. -/
theorem jobBytes_le_bytesPerAttempt (h : 8 ≤ difficulty) :
    ((Argon2Shape.forDifficulty difficulty).jobBytes : ℚ) ≤ bytesPerAttempt difficulty := by
  have h8 : 8 ≤ difficulty.toNat := UInt32.le_iff_toNat_le.1 h
  have hbytes : (Argon2Shape.forDifficulty difficulty).jobBytes ≤ difficulty.toNat * 1024 := by
    rw [jobBytes_forDifficulty, Nat.max_eq_left h8]
    exact Nat.mul_le_mul_right _ (Nat.div_mul_le_self _ _)
  have hcast : ((Argon2Shape.forDifficulty difficulty).jobBytes : ℚ) ≤
      difficulty.toNat * 1024 := by
    exact_mod_cast hbytes
  have hnonneg : (0 : ℚ) ≤ difficulty.toNat * 1024 := by positivity
  unfold bytesPerAttempt
  linarith

/-- A selected batch fits exactly where the floor under a job's size does not matter. -/
theorem selectBatchSize_fits_iff (runtime : GpuRuntimeKind) (freeMemoryBytes : Nat)
    (difficulty : UInt32) (explicitMaxBatchSize : Nat) :
    BatchFits runtime freeMemoryBytes difficulty explicitMaxBatchSize ↔
      FloorRespected runtime freeMemoryBytes difficulty explicitMaxBatchSize := by
  have hle := selected_le runtime freeMemoryBytes difficulty explicitMaxBatchSize
  have hexhausted : freeMemoryBytes ≤ effectiveReserveBytes runtime freeMemoryBytes
      DEFAULT_MEMORY_RESERVE_BYTES →
      (selectBatchSize runtime freeMemoryBytes difficulty
        explicitMaxBatchSize).selectedBatchSize = 0 := by
    intro hfree
    rw [estimate_exhausted hfree] at hle
    exact Nat.le_zero.1 hle
  unfold BatchFits FloorRespected
  dsimp only
  rw [and_iff_left hexhausted]
  by_cases hzero : difficulty = 0
  · subst hzero
    rw [estimate_zero] at hle
    refine iff_of_true ?_ (Or.inl rfl)
    rw [Nat.le_zero.1 hle, Nat.zero_mul]
    exact Nat.zero_le _
  rw [or_iff_right hzero]
  by_cases h8 : 8 ≤ difficulty
  · refine iff_of_true ?_ (Or.inl h8)
    have hcover := (le_estimate_iff hzero).1 hle
    have hjob := jobBytes_le_bytesPerAttempt h8
    have hsize := mul_le_mul_of_nonneg_left hjob (Nat.cast_nonneg (α := ℚ)
      (selectBatchSize runtime freeMemoryBytes difficulty explicitMaxBatchSize).selectedBatchSize)
    exact_mod_cast hsize.trans hcover
  rw [or_iff_right h8]
  have hlow : difficulty.toNat < 8 := UInt32.lt_iff_toNat_lt.1 (UInt32.not_le.1 h8)
  have hceiling : 0 < batchCeiling difficulty explicitMaxBatchSize := by
    unfold batchCeiling
    split_ifs with hexplicit
    · exact hexplicit
    · exact recommended_pos (UInt32.le_iff_toNat_le.2 hlow.le)
  have hjob : (Argon2Shape.forDifficulty difficulty).jobBytes = 8192 := by
    rw [jobBytes_forDifficulty, Nat.max_eq_right hlow.le]
  have hjobs : ∀ n, n * 8192 ≤ availableBytes runtime freeMemoryBytes ↔
      n ≤ availableBytes runtime freeMemoryBytes / 8192 := fun n =>
    (Nat.le_div_iff_mul_le (by decide)).symm
  rw [hjob, selected_eq_min hceiling, hjobs, hjobs, min_le_iff, or_comm]
  refine or_congr Iff.rfl ?_
  rw [← Nat.lt_succ_iff, ← not_le, Nat.succ_eq_add_one, le_estimate_iff hzero, not_le]

/-- 2 MiB left of the memory at difficulty 1: the batch of 2045 needs 16 MiB. -/
theorem selectBatchSize_overshoots :
    (selectBatchSize .cuda (102 * 1024 * 1024) 1 0).selectedBatchSize = 2045 ∧
      availableBytes .cuda (102 * 1024 * 1024) = 2097152 ∧
      (Argon2Shape.forDifficulty 1).jobBytes = 8192 ∧
      ¬ BatchFits .cuda (102 * 1024 * 1024) 1 0 := by
  have hjob : (Argon2Shape.forDifficulty 1).jobBytes = 8192 := by decide
  have hestimate : estimateMemoryBatchLimit .cuda (102 * 1024 * 1024) 1
      DEFAULT_MEMORY_RESERVE_BYTES = 2045 := by
    have hreserve : effectiveReserveBytes .cuda (102 * 1024 * 1024)
        DEFAULT_MEMORY_RESERVE_BYTES = 104857600 := by decide
    have hbytes : bytesPerAttempt 1 = 1025024 / 1000 := by
      unfold bytesPerAttempt
      rw [show (1 : UInt32).toNat = 1 from rfl]
      norm_num
    unfold estimateMemoryBatchLimit
    rw [hreserve, if_neg (by decide), hbytes, Nat.floor_eq_iff (by positivity)]
    norm_num
  have hselected : (selectBatchSize .cuda (102 * 1024 * 1024) 1 0).selectedBatchSize = 2045 := by
    rw [selected_eq_min (by decide), hestimate]
    decide
  refine ⟨hselected, by decide, hjob, fun h => ?_⟩
  have hle := h.1
  rw [hselected, hjob] at hle
  exact absurd hle (by decide)

end TreeMiner.Host
