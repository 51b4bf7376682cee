import TreeMiner.Core.Prim
import TreeMiner.Kernel.Oneshot

/-! The references of the kernel: no operation of `compute_ref_pos` wraps, and the block it
names is one that the lane already holds, not the last. -/

namespace TreeMiner.Kernel

open Lib.Argon2

/-- The result of an operation on 32-bit words, or none where it wraps. -/
def checkedU32 (x : Int) : Option UInt32 :=
  if 0 ≤ x ∧ x ≤ u32Max then some (UInt32.ofNat x.toNat) else none

/-- `umulhi`, with the product and the narrowing of its high half checked. -/
def umulhiChecked (x y : UInt32) : Option UInt32 :=
  if x.toNat * y.toNat ≤ u64Max then checkedU32 (x.toNat * y.toNat / 2 ^ 32 : Nat) else none

/-- `compute_ref_pos` with every operation checked. -/
def computeRefPosChecked (segmentBlocks slice offset refIndex : UInt32) : Option UInt32 := do
  let start ← checkedU32 (slice.toNat * segmentBlocks.toNat)
  let position ← checkedU32 (start.toNat + offset.toNat)
  let refAreaSize ← checkedU32 (position.toNat - 1)
  let index ← umulhiChecked refIndex refIndex
  let last ← checkedU32 (refAreaSize.toNat - 1)
  let back ← umulhiChecked refAreaSize index
  checkedU32 (last.toNat - back.toNat)

theorem checkedU32_of_toNat {x : Int} {y : UInt32} (h : x = y.toNat) : checkedU32 x = some y := by
  have hlt := y.toNat_lt
  unfold checkedU32 u32Max
  rw [if_pos (by omega), h, Int.toNat_natCast, UInt32.ofNat_toNat]

theorem umulhi_checked (x y : UInt32) : umulhiChecked x y = some (umulhi x y) := by
  have hlt : x.toNat * y.toNat < 2 ^ 64 :=
    Nat.mul_lt_mul'' (c := 2 ^ 32) (d := 2 ^ 32) x.toNat_lt y.toNat_lt
  have hle : x.toNat * y.toNat ≤ u64Max := Nat.le_of_lt_succ hlt
  unfold umulhiChecked
  rw [if_pos hle]
  exact checkedU32_of_toNat (congrArg Nat.cast (toNat_umulhi x y).symm)

/-- The high half of a product is smaller than either factor. -/
theorem umulhi_lt {x : UInt32} (hx : 0 < x.toNat) (y : UInt32) : (umulhi x y).toNat < x.toNat := by
  rw [toNat_umulhi]
  refine Nat.div_lt_of_lt_mul ?_
  rw [Nat.mul_comm]
  exact Nat.mul_lt_mul_of_pos_right y.toNat_lt hx

section

variable {segmentBlocks slice offset : UInt32} (hseg : 2 ≤ segmentBlocks.toNat)
  (hfit : 4 * segmentBlocks.toNat < 2 ^ 32) (hslice : slice.toNat < 4)
  (hoffset : offset.toNat < segmentBlocks.toNat) (hfirst : slice.toNat = 0 → 2 ≤ offset.toNat)

include hseg hfit hslice hoffset hfirst

/-- A position of the loops lies in the lane, behind its first two blocks. -/
theorem position_bounds : 2 ≤ slice.toNat * segmentBlocks.toNat + offset.toNat ∧
    slice.toNat * segmentBlocks.toNat + offset.toNat < 4 * segmentBlocks.toNat := by
  have hhigh : slice.toNat * segmentBlocks.toNat ≤ 3 * segmentBlocks.toNat :=
    Nat.mul_le_mul_right _ (by omega)
  rcases Nat.eq_zero_or_pos slice.toNat with hzero | hpos
  · have := hfirst hzero
    omega
  · have hlow : 1 * segmentBlocks.toNat ≤ slice.toNat * segmentBlocks.toNat :=
      Nat.mul_le_mul_right _ hpos
    omega

/-- Checked or wrapping, the index is the same, and it lies in front of the last block. -/
theorem computeRefPos_checked (refIndex : UInt32) :
    computeRefPosChecked segmentBlocks slice offset refIndex =
        some (computeRefPos segmentBlocks slice offset refIndex) ∧
      (computeRefPos segmentBlocks slice offset refIndex).toNat <
        slice.toNat * segmentBlocks.toNat + offset.toNat - 1 := by
  obtain ⟨hlow, hhigh⟩ := position_bounds hseg hfit hslice hoffset hfirst
  have hone : (1 : UInt32).toNat = 1 := rfl
  have hstart : (slice * segmentBlocks).toNat = slice.toNat * segmentBlocks.toNat := by
    rw [UInt32.toNat_mul, Nat.mod_eq_of_lt (by omega)]
  have hposition : (slice * segmentBlocks + offset).toNat =
      slice.toNat * segmentBlocks.toNat + offset.toNat := by
    rw [UInt32.toNat_add, hstart, Nat.mod_eq_of_lt (by omega)]
  have harea : (slice * segmentBlocks + offset - 1).toNat =
      slice.toNat * segmentBlocks.toNat + offset.toNat - 1 := by
    rw [UInt32.toNat_sub_of_le _ _ (UInt32.le_iff_toNat_le.2 (by omega)), hposition, hone]
  have hback := umulhi_lt (by omega : 0 < (slice * segmentBlocks + offset - 1).toNat)
    (umulhi refIndex refIndex)
  have hlast : (slice * segmentBlocks + offset - 1 - 1).toNat =
      slice.toNat * segmentBlocks.toNat + offset.toNat - 1 - 1 := by
    rw [UInt32.toNat_sub_of_le _ _ (UInt32.le_iff_toNat_le.2 (by omega)), harea, hone]
  have hindex : (computeRefPos segmentBlocks slice offset refIndex).toNat =
      (slice * segmentBlocks + offset - 1 - 1).toNat -
        (umulhi (slice * segmentBlocks + offset - 1) (umulhi refIndex refIndex)).toNat :=
    UInt32.toNat_sub_of_le _ _ (UInt32.le_iff_toNat_le.2 (by omega))
  refine ⟨?_, by omega⟩
  -- each checked operation, in the order of the source
  have hchecked1 : checkedU32 (slice.toNat * segmentBlocks.toNat) =
      some (slice * segmentBlocks) := checkedU32_of_toNat (by rw [hstart, Int.natCast_mul])
  have hchecked2 : checkedU32 ((slice * segmentBlocks).toNat + offset.toNat) =
      some (slice * segmentBlocks + offset) := checkedU32_of_toNat (by omega)
  have hchecked3 : checkedU32 ((slice * segmentBlocks + offset).toNat - 1) =
      some (slice * segmentBlocks + offset - 1) := checkedU32_of_toNat (by omega)
  have hchecked4 : checkedU32 ((slice * segmentBlocks + offset - 1).toNat - 1) =
      some (slice * segmentBlocks + offset - 1 - 1) := checkedU32_of_toNat (by omega)
  unfold computeRefPosChecked
  simp only [hchecked1, hchecked2, hchecked3, hchecked4, umulhi_checked, Option.bind_eq_bind,
    Option.bind_some]
  exact checkedU32_of_toNat (by omega)

end

/-- The reference of every position is computed without a wrap, and is a block in front of the
last one; so in every state of the loops that is about to fill that position, it is a block
already filled and not the last. -/
theorem reference_written (segmentBlocks slice offset refIndex : UInt32)
    (hseg : 2 ≤ segmentBlocks.toNat) (hfit : 4 * segmentBlocks.toNat < 2 ^ 32)
    (hslice : slice.toNat < 4) (hoffset : offset.toNat < segmentBlocks.toNat)
    (hfirst : slice.toNat = 0 → 2 ≤ offset.toNat) :
    let position := slice.toNat * segmentBlocks.toNat + offset.toNat
    let reference := computeRefPos segmentBlocks slice offset refIndex
    computeRefPosChecked segmentBlocks slice offset refIndex = some reference ∧
    reference.toNat < position - 1 ∧
    ∀ memory memLane n s, Filled memory memLane segmentBlocks n s → n + 2 = position →
      s.memCurr = memLane + position * QWORDS_IN_BLOCK ∧
      blockAt s.memory (memLane + reference.toNat * QWORDS_IN_BLOCK) =
        blocks segmentBlocks.toNat (blockAt memory memLane)
          (blockAt memory (memLane + QWORDS_IN_BLOCK)) reference.toNat := by
  obtain ⟨-, hhigh⟩ := position_bounds hseg hfit hslice hoffset hfirst
  obtain ⟨hchecked, hlt⟩ := computeRefPos_checked hseg hfit hslice hoffset hfirst refIndex
  intro position reference
  refine ⟨hchecked, hlt, fun memory memLane n s hfilled hn => ⟨hn ▸ hfilled.curr, ?_⟩⟩
  have hbefore : reference.toNat < n + 2 := by
    rw [hn]
    exact hlt.trans_le (Nat.sub_le _ _)
  rw [hfilled.done _ hbefore]
  exact (fill_of_le hbefore (by omega)).symm

/-- The last block of a lane with segments of two, and the word that refers farthest back. -/
theorem reference_written_end : computeRefPos 2 3 1 0xffffffff < 6 ∧
    computeRefPosChecked 2 3 1 0xffffffff = some (computeRefPos 2 3 1 0xffffffff) := by
  obtain ⟨hchecked, hlt, -⟩ := reference_written 2 3 1 0xffffffff (by decide) (by decide)
    (by decide) (by decide) (by decide)
  exact ⟨UInt32.lt_iff_toNat_lt.2 hlt, hchecked⟩

end TreeMiner.Kernel
