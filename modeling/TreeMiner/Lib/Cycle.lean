import Mathlib.Data.List.Infix
import Mathlib.Data.List.Range
import Mathlib.Order.Interval.Finset.Nat

/-! A schedule that goes round a cycle of slots. Whatever slot it stands at, the
entries of one turn are the entries of the cycle in another order. -/

namespace TreeMiner.Lib

variable {α : Type*} (f : Nat → α) (c : Nat)

/-- The first `n` entries of the schedule `f 0, …, f (c - 1), f 0, …`. -/
def turns (n : Nat) : List α := (List.range n).map fun i => f (i % c)

@[simp] theorem turns_length (n : Nat) : (turns f c n).length = n := by
  simp [turns]

theorem turns_succ (n : Nat) : turns f c (n + 1) = turns f c n ++ [f (n % c)] := by
  simp [turns, List.range_succ]

variable {f c}

/-- A cycle cut into three blocks. -/
theorem cycle_blocks {x y z : α} {a b : Nat} (hab : a ≤ b) (hbc : b ≤ c)
    (h : ∀ i < c, f i = if i < a then x else if i < b then y else z) :
    (List.range c).map f =
      List.replicate a x ++ (List.replicate (b - a) y ++ List.replicate (c - b) z) := by
  apply List.ext_getElem
  · simp
    omega
  · intro i hi _
    simp only [List.length_map, List.length_range] at hi
    simp only [List.getElem_map, List.getElem_range, h i hi, List.getElem_append,
      List.length_replicate, List.getElem_replicate]
    split_ifs <;> first | rfl | omega

/-- A stretch of `range` is a `range'`. -/
theorem range_infix {w : List Nat} {n : Nat} (h : w <:+: List.range n) :
    ∃ k, w = List.range' k w.length := by
  obtain ⟨as, bs, hw⟩ := h
  rw [List.append_assoc, List.range_eq_range'] at hw
  obtain ⟨k, -, -, hrest⟩ := List.range'_eq_append_iff.1 hw.symm
  obtain ⟨m, -, hw, -⟩ := List.range'_eq_append_iff.1 hrest.symm
  refine ⟨0 + k * 1, ?_⟩
  rw [hw, List.length_range']

/-- One turn of the cycle, wherever it starts, holds the cycle's own entries. -/
theorem perm_of_turn {w : List α} {n : Nat} (h : w <:+: turns f c n) (hlen : w.length = c) :
    w.Perm ((List.range c).map f) := by
  obtain ⟨v, hv, rfl⟩ := List.infix_map_iff.1 h
  obtain ⟨k, hk⟩ := range_infix hv
  rw [List.length_map] at hlen
  rw [hk, hlen]
  have hico : Multiset.Ico k (k + c) = (List.range' k c : Multiset Nat) := by
    show (List.range' k (k + c - k) : Multiset Nat) = _
    rw [Nat.add_sub_cancel_left]
  have hmod : ((List.range' k c).map (· % c)).Perm (List.range c) := by
    have h := Nat.multiset_Ico_map_mod k c
    rw [hico, Multiset.map_coe] at h
    exact Multiset.coe_eq_coe.1 h
  have := hmod.map f
  rwa [List.map_map] at this

end TreeMiner.Lib
