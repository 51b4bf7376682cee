import TreeMiner.Lib.Run

/-! A bounded queue that drops what it has no room for, and counts the drops. Whatever the
order of its operations, what is accepted leaves in the order it came, and once. -/

namespace TreeMiner.Lib

structure Fifo (α : Type*) where
  items : List α
  dropped : Nat

namespace Fifo

variable {α : Type*}

inductive Op (α : Type*)
  | offer (a : α)
  | take

section

variable (capacity : Nat) (admits : α → Bool)

/-- There is room for it, and it is let in at all. -/
def takes (q : Fifo α) (a : α) : Bool := admits a && decide (q.items.length < capacity)

def step (q : Fifo α) : Op α → Fifo α
  | .offer a =>
    if q.takes capacity admits a then { q with items := q.items ++ [a] }
    else { q with dropped := q.dropped + 1 }
  | .take => { q with items := q.items.tail }

/-! What an operation adds to the history of the queue. -/

def offeredBy (t : Trans (Fifo α) (Op α)) : Option α :=
  match t.ev with
  | .offer a => some a
  | .take => none

def acceptedBy (t : Trans (Fifo α) (Op α)) : Option α :=
  match t.ev with
  | .offer a => if t.pre.takes capacity admits a then some a else none
  | .take => none

def takenBy (t : Trans (Fifo α) (Op α)) : Option α :=
  match t.ev with
  | .offer _ => none
  | .take => t.pre.items.head?

end

variable {capacity : Nat} {admits : α → Bool}

theorem takes_iff (q : Fifo α) (a : α) :
    q.takes capacity admits a = true ↔ admits a = true ∧ q.items.length < capacity := by
  rw [takes, Bool.and_eq_true, decide_eq_true_iff]

/-- What one operation adds at the back and takes from the front. -/
theorem step_items {t : Trans (Fifo α) (Op α)} (h : t.post = t.pre.step capacity admits t.ev) :
    t.pre.items ++ (acceptedBy capacity admits t).toList =
      (takenBy t).toList ++ t.post.items := by
  obtain ⟨pre, ev, post⟩ := t
  obtain rfl : post = pre.step capacity admits ev := h
  cases ev with
  | offer a =>
    unfold acceptedBy takenBy step
    dsimp only
    split_ifs <;> simp
  | take =>
    cases hq : pre.items with
    | nil => simp [acceptedBy, takenBy, step, hq]
    | cons a items => simp [acceptedBy, takenBy, step, hq]

theorem step_dropped {t : Trans (Fifo α) (Op α)} (h : t.post = t.pre.step capacity admits t.ev) :
    t.pre.dropped + (offeredBy t).toList.length =
      (acceptedBy capacity admits t).toList.length + t.post.dropped := by
  obtain ⟨pre, ev, post⟩ := t
  obtain rfl : post = pre.step capacity admits ev := h
  cases ev with
  | offer a =>
    unfold offeredBy acceptedBy step
    dsimp only
    split_ifs
    · simp [Nat.add_comm]
    · simp
  | take => simp [offeredBy, acceptedBy, step]

theorem step_bounded (q : Fifo α) (e : Op α) (h : q.items.length ≤ capacity) :
    (q.step capacity admits e).items.length ≤ capacity := by
  cases e with
  | offer a =>
    unfold step
    dsimp only
    split_ifs with ha
    · rw [List.length_append, List.length_singleton]
      exact ((takes_iff q a).1 ha).2
    · exact h
  | take =>
    rw [step, List.length_tail]
    omega

theorem acceptedBy_some {t : Trans (Fifo α) (Op α)} {a : α}
    (h : acceptedBy capacity admits t = some a) : offeredBy t = some a ∧ admits a = true := by
  obtain ⟨pre, ev, post⟩ := t
  cases ev with
  | offer b =>
    unfold acceptedBy at h
    dsimp only at h
    split_ifs at h with hb
    cases h
    exact ⟨rfl, ((takes_iff pre a).1 hb).1⟩
  | take => cases h

/-! ## Runs -/

theorem filterMap_cons_toList {β γ : Type*} (f : β → Option γ) (b : β) (bs : List β) :
    (b :: bs).filterMap f = (f b).toList ++ bs.filterMap f := by
  cases hb : f b with
  | none => simp [hb]
  | some c => simp [hb]

variable {q u : Fifo α} {ts : List (Trans (Fifo α) (Op α))}

/-- What was in the queue and what came into it is what left it and what is in it now. -/
theorem run_items (h : Run (fun q e q' => q' = q.step capacity admits e) q ts u) :
    q.items ++ ts.filterMap (acceptedBy capacity admits) =
      ts.filterMap takenBy ++ u.items := by
  induction h with
  | nil => simp
  | @cons q q' u e ts hs _ ih =>
    have hstep := step_items (t := ⟨q, e, q'⟩) hs
    dsimp only at hstep
    rw [filterMap_cons_toList, filterMap_cons_toList,
      ← List.append_assoc, hstep, List.append_assoc, ih, List.append_assoc]

/-- Every offer is accepted or counted. -/
theorem run_dropped (h : Run (fun q e q' => q' = q.step capacity admits e) q ts u) :
    q.dropped + (ts.filterMap offeredBy).length =
      (ts.filterMap (acceptedBy capacity admits)).length + u.dropped := by
  induction h with
  | nil => simp
  | @cons q q' u e ts hs _ ih =>
    have hstep := step_dropped (t := ⟨q, e, q'⟩) hs
    dsimp only at hstep
    rw [filterMap_cons_toList, filterMap_cons_toList,
      List.length_append, List.length_append]
    omega

/-- What is accepted was offered, in this order, and is let in. -/
theorem accepted_sublist (ts : List (Trans (Fifo α) (Op α))) :
    (ts.filterMap (acceptedBy capacity admits)).Sublist (ts.filterMap offeredBy) ∧
      ∀ a ∈ ts.filterMap (acceptedBy capacity admits), admits a = true := by
  constructor
  · induction ts with
    | nil => exact List.Sublist.refl _
    | cons t ts ih =>
      rw [filterMap_cons_toList, filterMap_cons_toList]
      refine List.Sublist.append ?_ ih
      cases ha : acceptedBy capacity admits t with
      | none => exact List.nil_sublist _
      | some a =>
        rw [(acceptedBy_some ha).1]
  · intro a ha
    obtain ⟨t, -, ht⟩ := List.mem_filterMap.1 ha
    exact (acceptedBy_some ht).2

theorem run_bounded (h : Run (fun q e q' => q' = q.step capacity admits e) q ts u)
    (hq : q.items.length ≤ capacity) : ∀ x ∈ visited q ts, x.items.length ≤ capacity :=
  (h.inv (I := fun q => q.items.length ≤ capacity)
    (fun q e q' hs hq => by rw [hs]; exact q.step_bounded e hq) hq).1

end Fifo

end TreeMiner.Lib
