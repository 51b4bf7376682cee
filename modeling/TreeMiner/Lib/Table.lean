import Mathlib.Algebra.BigOperators.Group.List.Basic
import Mathlib.Data.List.Nodup
import Mathlib.Tactic.Abel

/-! A table with a primary key: rows under distinct keys, in the order they were inserted.
An update touches the row of one key, and a sum over the rows by as much as that row. -/

namespace TreeMiner.Lib

structure Table (κ α : Type*) where
  rows : List (κ × α)
  nodup : (rows.map Prod.fst).Nodup

namespace Table

variable {κ α : Type*} [DecidableEq κ]

def empty : Table κ α := ⟨[], List.nodup_nil⟩

def get (t : Table κ α) (k : κ) : Option α := t.rows.lookup k

def keys (t : Table κ α) : List κ := t.rows.map Prod.fst

def updateRow (k : κ) (f : α → α) (row : κ × α) : κ × α :=
  if row.1 = k then (row.1, f row.2) else row

theorem updateRow_key (k : κ) (f : α → α) (row : κ × α) : (updateRow k f row).1 = row.1 := by
  unfold updateRow
  split_ifs <;> rfl

theorem updateRow_keys (k : κ) (f : α → α) (rows : List (κ × α)) :
    (rows.map (updateRow k f)).map Prod.fst = rows.map Prod.fst := by
  rw [List.map_map]
  exact List.map_congr_left fun row _ => updateRow_key k f row

def modify (t : Table κ α) (k : κ) (f : α → α) : Table κ α where
  rows := t.rows.map (updateRow k f)
  nodup := by
    rw [updateRow_keys]
    exact t.nodup

/-- A row under a key that is taken is left out. -/
def insert (t : Table κ α) (k : κ) (a : α) : Table κ α :=
  if h : k ∈ t.rows.map Prod.fst then t else
    { rows := t.rows ++ [(k, a)]
      nodup := by
        rw [List.map_append]
        exact List.nodup_append.2 ⟨t.nodup, List.nodup_singleton k, fun x hx y hy hxy => by
          rw [List.map_singleton, List.mem_singleton] at hy
          rw [hxy, hy] at hx
          exact h hx⟩ }

theorem keys_modify (t : Table κ α) (k : κ) (f : α → α) : (t.modify k f).keys = t.keys :=
  updateRow_keys k f t.rows

theorem get_modify (t : Table κ α) (k k' : κ) (f : α → α) :
    (t.modify k f).get k' = if k' = k then (t.get k').map f else t.get k' := by
  obtain ⟨rows, hnodup⟩ := t
  change (rows.map (updateRow k f)).lookup k' =
    if k' = k then (rows.lookup k').map f else rows.lookup k'
  clear hnodup
  induction rows with
  | nil => simp
  | cons row rows ih =>
    rw [List.map_cons, List.lookup_cons, List.lookup_cons, updateRow_key, ih]
    by_cases hk : k' = row.1
    · subst hk
      by_cases hrow : row.1 = k
      · simp [updateRow, hrow]
      · simp [updateRow, hrow]
    · rw [beq_false_of_ne hk]

theorem get_modify_self (t : Table κ α) (k : κ) (f : α → α) :
    (t.modify k f).get k = (t.get k).map f := by
  rw [get_modify, if_pos rfl]

theorem get_modify_ne (t : Table κ α) {k k' : κ} (f : α → α) (h : k' ≠ k) :
    (t.modify k f).get k' = t.get k' := by
  rw [get_modify, if_neg h]

theorem mem_keys_iff {t : Table κ α} {k : κ} : k ∈ t.keys ↔ ∃ a, t.get k = some a := by
  obtain ⟨rows, hnodup⟩ := t
  change k ∈ rows.map Prod.fst ↔ ∃ a, rows.lookup k = some a
  clear hnodup
  induction rows with
  | nil => simp
  | cons row rows ih =>
    rw [List.map_cons, List.mem_cons, List.lookup_cons, ih]
    by_cases hk : k = row.1
    · simp [hk]
    · rw [beq_false_of_ne hk]
      simp [hk]

theorem lookup_of_nodup {rows : List (κ × α)} {row : κ × α}
    (h : ((row :: rows).map Prod.fst).Nodup) : rows.lookup row.1 = none := by
  rw [List.map_cons, List.nodup_cons] at h
  refine List.lookup_eq_none_iff.2 fun p hp => ?_
  rw [bne_iff_ne]
  intro heq
  exact h.1 (heq ▸ List.mem_map_of_mem hp)

theorem mem_rows_iff {t : Table κ α} {k : κ} {a : α} : (k, a) ∈ t.rows ↔ t.get k = some a := by
  obtain ⟨rows, hnodup⟩ := t
  change (k, a) ∈ rows ↔ rows.lookup k = some a
  induction rows with
  | nil => simp
  | cons row rows ih =>
    have hnone := lookup_of_nodup hnodup
    rw [List.map_cons, List.nodup_cons] at hnodup
    rw [List.mem_cons, List.lookup_cons, ih hnodup.2]
    by_cases hk : k = row.1
    · subst hk
      simp [hnone, Prod.ext_iff, eq_comm]
    · rw [beq_false_of_ne hk]
      simp [Prod.ext_iff, hk]

theorem get_insert (t : Table κ α) (k k' : κ) (a : α) :
    (t.insert k a).get k' = if k' = k ∧ t.get k = none then some a else t.get k' := by
  unfold insert
  split_ifs with hin hnew hnew
  · obtain ⟨b, hb⟩ := mem_keys_iff.1 hin
    rw [hnew.2] at hb
    cases hb
  · rfl
  · obtain ⟨rfl, hnone⟩ := hnew
    unfold get at hnone ⊢
    rw [List.lookup_append, hnone]
    simp
  · unfold get
    rw [List.lookup_append]
    by_cases hk : k' = k
    · subst hk
      have hsome : t.get k' ≠ none := fun h => hnew ⟨rfl, h⟩
      exact absurd (mem_keys_iff.2 (Option.ne_none_iff_exists'.1 hsome)) hin
    · have hnone : List.lookup k' [(k, a)] = none := by simpa using hk
      rw [hnone, Option.or_none]

/-- An assignment to a key: its row is replaced, or there is a new one. -/
def put (t : Table κ α) (k : κ) (a : α) : Table κ α := (t.insert k a).modify k fun _ => a

theorem get_put (t : Table κ α) (k k' : κ) (a : α) :
    (t.put k a).get k' = if k' = k then some a else t.get k' := by
  unfold put
  rw [get_modify, get_insert]
  by_cases hk : k' = k
  · subst hk
    cases h : t.get k' <;> simp
  · simp [hk]

def filter (t : Table κ α) (p : κ × α → Bool) : Table κ α where
  rows := t.rows.filter p
  nodup := t.nodup.sublist (List.filter_sublist.map Prod.fst)

theorem get_filter_eq_some {t : Table κ α} {p : κ × α → Bool} {k : κ} {a : α} :
    (t.filter p).get k = some a ↔ t.get k = some a ∧ p (k, a) = true := by
  rw [← mem_rows_iff, ← mem_rows_iff]
  exact List.mem_filter

def erase (t : Table κ α) (k : κ) : Table κ α := t.filter fun row => decide (row.1 ≠ k)

theorem get_erase_eq_some {t : Table κ α} {k k' : κ} {a : α} :
    (t.erase k).get k' = some a ↔ t.get k' = some a ∧ k' ≠ k := by
  rw [erase, get_filter_eq_some, decide_eq_true_iff]

section Sum

variable {β : Type*} [AddCommGroup β]

def sum (t : Table κ α) (g : α → β) : β := (t.rows.map fun row => g row.2).sum

theorem sum_modify (t : Table κ α) (k : κ) (f : α → α) (g : α → β) :
    (t.modify k f).sum g = t.sum g + ((t.get k).elim 0 fun a => g (f a) - g a) := by
  obtain ⟨rows, hnodup⟩ := t
  change ((rows.map (updateRow k f)).map fun row => g row.2).sum =
    (rows.map fun row => g row.2).sum + (rows.lookup k).elim 0 fun a => g (f a) - g a
  induction rows with
  | nil => simp
  | cons row rows ih =>
    have hnone := lookup_of_nodup hnodup
    rw [List.map_cons, List.nodup_cons] at hnodup
    rw [List.map_cons, List.map_cons, List.map_cons, List.sum_cons, List.sum_cons, ih hnodup.2,
      List.lookup_cons]
    by_cases hk : k = row.1
    · subst hk
      simp only [updateRow, if_true, hnone, Option.elim_none, add_zero, beq_self_eq_true,
        Option.elim_some]
      abel
    · have hk' : row.1 ≠ k := fun h => hk h.symm
      rw [updateRow, if_neg hk', beq_false_of_ne hk]
      abel

end Sum

end Table

end TreeMiner.Lib
