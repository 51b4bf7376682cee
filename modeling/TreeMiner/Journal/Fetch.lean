import TreeMiner.Journal.Finds

/-! What a fetch returns. Rows are in id order, so a limited fetch is the due rows with
fewer due rows before them than the limit. -/

namespace TreeMiner

/-- In a list by strictly growing keys, a place is the number of smaller keys. -/
theorem mem_take_iff_count {α : Type*} {key : α → Int} {l : List α} {x : α} {n : Nat}
    (h : l.Pairwise fun a b => key a < key b) :
    x ∈ l.take n ↔ x ∈ l ∧ (l.filter fun y => decide (key y < key x)).length < n := by
  induction l generalizing n with
  | nil => simp
  | cons a l ih =>
    obtain ⟨ha, hl⟩ := List.pairwise_cons.1 h
    cases n with
    | zero => simp
    | succ n =>
      rw [List.take_succ_cons, List.mem_cons, List.mem_cons, ih hl]
      by_cases hx : x ∈ l
      · have hlt := ha x hx
        have hne : x ≠ a := by rintro rfl; exact lt_irrefl _ hlt
        simp [hx, hne, hlt]
      · -- nothing behind the head is below it
        have hnone : ∀ y ∈ l, ¬ key y < key a := fun y hy => lt_asymm (ha y hy)
        constructor
        · rintro (rfl | ⟨hmem, -⟩)
          · refine ⟨.inl rfl, ?_⟩
            rw [List.filter_cons_of_neg (by simp), List.filter_eq_nil_iff.2 (by simpa using hnone)]
            exact Nat.succ_pos n
          · exact absurd hmem hx
        · rintro ⟨rfl | hmem, -⟩
          · exact .inl rfl
          · exact absurd hmem hx

namespace Finds

/-- The `WHERE` clause of a fetch. -/
def due (status : FindStatus) (kind : Option FindKind) (nowUtc : String) (r : FindRecord) : Bool :=
  decide (r.status = status) &&
    (match kind with | some k => decide (r.payload.kind = k) | none => true) &&
    (match r.nextAttemptAt with | some at' => decide (at' ≤ nowUtc) | none => true)

theorem fetchByStatus_eq (t : Finds) (status : FindStatus) (kind : Option FindKind)
    (nowUtc : String) (limit : Nat) :
    t.fetchByStatus status kind nowUtc limit = (t.rows.filter (due status kind nowUtc)).take limit :=
  rfl

theorem mem_fetchByStatus_iff {t : Finds} {status : FindStatus} {kind : Option FindKind}
    {nowUtc : String} {limit : Nat} {r : FindRecord} :
    r ∈ t.fetchByStatus status kind nowUtc limit ↔
      (r ∈ t.rows ∧ due status kind nowUtc r = true) ∧
        (t.rows.filter fun q => due status kind nowUtc q && decide (q.id < r.id)).length < limit := by
  rw [fetchByStatus_eq, mem_take_iff_count (t.ids.filter _), List.mem_filter, List.filter_filter]
  simp only [Bool.and_comm]

end Finds

end TreeMiner
