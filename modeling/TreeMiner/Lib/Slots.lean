import Mathlib.Data.List.Basic

/-! Numbered slots: a list in which the entry of a number is `none` once it is given up. -/

namespace TreeMiner.Lib

variable {α : Type*} {l : List (Option α)} {i : Nat} {a : α}

theorem getElem?_of_join (h : l[i]?.join = some a) : l[i]? = some (some a) := by
  cases hget : l[i]? with
  | none =>
    rw [hget] at h
    cases h
  | some o =>
    rw [hget] at h
    exact congrArg some h

theorem lt_of_join (h : l[i]?.join = some a) : i < l.length :=
  (List.getElem?_eq_some_iff.1 (getElem?_of_join h)).1

theorem mem_of_join (h : l[i]?.join = some a) : some a ∈ l :=
  List.mem_of_getElem? (getElem?_of_join h)

theorem join_set (h : i < l.length) (o : Option α) (j : Nat) :
    (l.set i o)[j]?.join = if j = i then o else l[j]?.join := by
  rw [List.getElem?_set]
  by_cases hj : j = i
  · rw [if_pos hj.symm, if_pos hj, if_pos h]
    rfl
  · rw [if_neg (Ne.symm hj), if_neg hj]

theorem join_snoc (l : List (Option α)) (o : Option α) (j : Nat) :
    (l ++ [o])[j]?.join = if j = l.length then o else l[j]?.join := by
  rcases Nat.lt_trichotomy j l.length with hlt | rfl | hgt
  · rw [List.getElem?_append_left hlt, if_neg (Nat.ne_of_lt hlt)]
  · rw [List.getElem?_append_right (Nat.le_refl _), if_pos rfl, Nat.sub_self]
    rfl
  · rw [if_neg (Nat.ne_of_gt hgt), List.getElem?_eq_none (Nat.le_of_lt hgt),
      List.getElem?_eq_none (by rw [List.length_append, List.length_singleton]; omega)]

/-- Changing one entry changes a count by that entry. -/
theorem countP_set_join (h : l[i]?.join = some a) (o : Option α) (p : Option α → Bool) :
    (l.set i o).countP p + (p (some a)).toNat = l.countP p + (p o).toNat := by
  have hlt := lt_of_join h
  have hget : l[i] = some a :=
    Option.some.inj ((List.getElem?_eq_getElem hlt).symm.trans (getElem?_of_join h))
  have hle := @List.boole_getElem_le_countP _ p l i hlt
  rw [List.countP_set hlt]
  rw [hget] at hle ⊢
  cases hp : p (some a) <;> cases hq : p o <;>
    simp only [hp, Bool.toNat_false, Bool.toNat_true, if_true, Bool.false_eq_true, if_false]
      at hle ⊢ <;> omega

end TreeMiner.Lib
