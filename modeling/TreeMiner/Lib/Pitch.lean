import Mathlib.Algebra.Order.Ring.Nat
import Mathlib.Data.List.GetD
import Mathlib.Tactic.SplitIfs

/-! Rows of a flat buffer, one pitch after the other. -/

namespace TreeMiner.Lib

variable {α : Type*}

/-- The columns from `lo` to `hi` of the first `height` rows are `f`'s; the rest stays. -/
def setRows (pitch height lo hi : Nat) (f : Nat → Nat → α) (buffer : Nat → α) : Nat → α :=
  fun i =>
    if i / pitch < height ∧ lo ≤ i % pitch ∧ i % pitch < hi then f (i / pitch) (i % pitch)
    else buffer i

section

variable {pitch height lo hi row column : Nat} {f : Nat → Nat → α} {buffer : Nat → α}

theorem setRows_apply (hcolumn : column < pitch) :
    setRows pitch height lo hi f buffer (row * pitch + column) =
      if row < height ∧ lo ≤ column ∧ column < hi then f row column
      else buffer (row * pitch + column) := by
  have hpitch : 0 < pitch := by omega
  have hdiv : (row * pitch + column) / pitch = row := by
    rw [Nat.mul_comm, Nat.mul_add_div hpitch, Nat.div_eq_of_lt hcolumn, Nat.add_zero]
  have hmod : (row * pitch + column) % pitch = column := by
    rw [Nat.mul_comm, Nat.mul_add_mod, Nat.mod_eq_of_lt hcolumn]
  unfold setRows
  rw [hdiv, hmod]

theorem setRows_inside (hhi : hi ≤ pitch) (hrow : row < height) (hlow : lo ≤ column)
    (hcolumn : column < hi) : setRows pitch height lo hi f buffer (row * pitch + column) =
      f row column := by
  rw [setRows_apply (by omega), if_pos ⟨hrow, hlow, hcolumn⟩]

end

/-- A row of a buffer of `height` rows lies in it up to the pitch. -/
theorem row_end_le {pitch height row width : Nat} (hrow : row < height) (hwidth : width ≤ pitch) :
    row * pitch + width ≤ height * pitch := by
  calc row * pitch + width ≤ row * pitch + pitch := Nat.add_le_add_left hwidth _
    _ = (row + 1) * pitch := (Nat.succ_mul row pitch).symm
    _ ≤ height * pitch := Nat.mul_le_mul_right _ hrow

/-- Pieces of one length, one behind the other, stand at that pitch. -/
theorem flatMap_getD {α β : Type*} {f : α → List β} {pitch : Nat} {xs : List α}
    (hf : ∀ x ∈ xs, (f x).length = pitch) (a : α) (b : β) {row column : Nat}
    (hrow : row < xs.length) (hcolumn : column < pitch) :
    (xs.flatMap f).getD (row * pitch + column) b = (f (xs.getD row a)).getD column b := by
  induction xs generalizing row with
  | nil => cases hrow
  | cons x xs ih =>
    have hx := hf x List.mem_cons_self
    rw [List.flatMap_cons]
    cases row with
    | zero =>
      rw [Nat.zero_mul, Nat.zero_add, List.getD_append _ _ _ _ (by rwa [hx])]
      rfl
    | succ row =>
      rw [List.length_cons] at hrow
      rw [Nat.succ_mul, List.getD_append_right _ _ _ _ (by omega), hx,
        show row * pitch + pitch + column - pitch = row * pitch + column by omega,
        ih (fun y hy => hf y (List.mem_cons_of_mem _ hy)) (by omega)]
      rfl

theorem flatMap_length {α β : Type*} {f : α → List β} {pitch : Nat} {xs : List α}
    (hf : ∀ x ∈ xs, (f x).length = pitch) : (xs.flatMap f).length = xs.length * pitch := by
  rw [List.length_flatMap, List.map_congr_left hf, List.map_const',
    List.sum_replicate_nat]

end TreeMiner.Lib
