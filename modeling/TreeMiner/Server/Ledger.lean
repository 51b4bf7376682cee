import Mathlib.Tactic.Linarith
import TreeMiner.Server.Isolation

/-! What the balances and the transaction rows add up to, and what each statement adds. -/

namespace TreeMiner.Server

open Lib

/-- The sign of a row in its account's books. -/
def TransactionType.sign : TransactionType → ℚ
  | .deposit | .providerPayout | .platformFee | .transferIn => 1
  | .withdraw | .leaseCharge | .transferOut => -1

def Transaction.signed (t : Transaction) : ℚ := t.type.sign * t.amount

namespace Db

/-- An account that is not there has nothing. -/
def balance (d : Db) (id : String) : ℚ := (d.accounts.get id).getD 0

def total (d : Db) : ℚ := d.accounts.sum id

/-- The rows of an account. -/
def ledger (d : Db) (id : String) : ℚ :=
  (d.transactions.map fun t => if t.accountId = id then t.signed else 0).sum

/-- How far the balance is ahead of the rows. -/
def drift (d : Db) (id : String) : ℚ := d.balance id - d.ledger id

theorem balance_of_get {d : Db} {id : String} {x : ℚ} (h : d.accounts.get id = some x) :
    d.balance id = x := by
  unfold balance
  rw [h]
  rfl

theorem get_of_mem {d : Db} {id : String} (h : id ∈ d.accounts.keys) :
    d.accounts.get id = some (d.balance id) := by
  obtain ⟨x, hx⟩ := Table.mem_keys_iff.1 h
  rw [hx, balance_of_get hx]

/-- An `UPDATE` of a balance that finds its row. -/
theorem balance_modify {d : Db} {id : String} (h : id ∈ d.accounts.keys) (f : ℚ → ℚ) (id' : String) :
    ((d.accounts.modify id f).get id').getD 0 =
      if id' = id then f (d.balance id) else d.balance id' := by
  rw [Table.get_modify]
  split_ifs with hid
  · rw [hid, get_of_mem h]
    rfl
  · rfl

theorem total_modify {d : Db} {id : String} (h : id ∈ d.accounts.keys) (f : ℚ → ℚ) :
    (d.accounts.modify id f).sum (fun x => x) = d.total + (f (d.balance id) - d.balance id) := by
  rw [Table.sum_modify, get_of_mem h]
  rfl

theorem ledger_snoc (d : Db) (t : Transaction) (id : String) :
    ({ d with transactions := d.transactions ++ [t] } : Db).ledger id =
      d.ledger id + if t.accountId = id then t.signed else 0 := by
  unfold ledger
  rw [List.map_append, List.sum_append, List.map_singleton, List.sum_singleton]

end Db

/-! ## Statements of a transaction -/

namespace Write

/-- What a statement adds to the balances in all. -/
def flow : Write → ℚ
  | .addBalance _ amount => amount
  | _ => 0

/-- What it adds to an account's drift. -/
def gap (id : String) : Write → ℚ
  | .addBalance accountId amount => if accountId = id then amount else 0
  | .insertTransaction t => if t.accountId = id then -t.signed else 0
  | _ => 0

end Write

def flows (todo : List Write) : ℚ := (todo.map Write.flow).sum

def gaps (id : String) (todo : List Write) : ℚ := (todo.map (Write.gap id)).sum

theorem flows_cons (w : Write) (todo : List Write) : flows (w :: todo) = w.flow + flows todo :=
  List.sum_cons

theorem gaps_cons (id : String) (w : Write) (todo : List Write) :
    gaps id (w :: todo) = w.gap id + gaps id todo := List.sum_cons

theorem Db.total_apply {d : Db} {w : Write} (h : d.Finds w) : (d.apply w).total = d.total + w.flow := by
  obtain ⟨id, hid, hmem⟩ := h
  cases w with
  | addBalance accountId amount =>
    cases hid
    have htotal := Db.total_modify hmem (· + amount)
    rw [add_sub_cancel_left] at htotal
    exact htotal
  | insertTransaction t => exact (add_zero _).symm
  | _ => cases hid

theorem Db.drift_apply {d : Db} {w : Write} (h : d.Finds w) (id : String) :
    (d.apply w).drift id = d.drift id + w.gap id := by
  obtain ⟨id', hid, hmem⟩ := h
  cases w with
  | addBalance accountId amount =>
    cases hid
    have hbalance := Db.balance_modify hmem (· + amount) id
    change ((d.accounts.modify id' (· + amount)).get id).getD 0 - d.ledger id = _
    rw [hbalance]
    simp only [Write.gap, drift]
    by_cases heq : id = id'
    · rw [if_pos heq, if_pos heq.symm, heq]
      ring
    · rw [if_neg heq, if_neg (Ne.symm heq)]
      ring
  | insertTransaction t =>
    cases hid
    change d.balance id - ({ d with transactions := d.transactions ++ [t] } : Db).ledger id = _
    rw [Db.ledger_snoc]
    simp only [Write.gap, drift]
    by_cases heq : t.accountId = id
    · rw [if_pos heq, if_pos heq]
      ring
    · rw [if_neg heq, if_neg heq]
      ring
  | _ => cases hid

/-- An account stays at zero or above unless the statement takes more than it has. -/
theorem Db.nonneg_apply {d : Db} {w : Write} (h : d.Finds w) (hd : ∀ id, 0 ≤ d.balance id)
    (hw : ∀ id amount, w = .addBalance id amount → 0 ≤ d.balance id + amount) (id : String) :
    0 ≤ (d.apply w).balance id := by
  obtain ⟨id', hid, hmem⟩ := h
  cases w with
  | addBalance accountId amount =>
    cases hid
    change 0 ≤ ((d.accounts.modify id' (· + amount)).get id).getD 0
    rw [Db.balance_modify hmem]
    split_ifs
    · exact hw id' amount rfl
    · exact hd id
  | insertTransaction t => exact hd id
  | _ => cases hid

/-! ## Deposits and withdrawals -/

theorem Db.setBalance_frame {d : Db} {id : String} (h : id ∈ d.accounts.keys) (x : ℚ) :
    (d.apply (.setBalance id x)).accounts.keys = d.accounts.keys ∧
      (d.apply (.setBalance id x)).total = d.total + (x - d.balance id) ∧
      (∀ id', (d.apply (.setBalance id x)).drift id' =
        d.drift id' + if id = id' then x - d.balance id else 0) ∧
      ∀ id', (d.apply (.setBalance id x)).balance id' = if id' = id then x else d.balance id' := by
  have hbalance := Db.balance_modify h fun _ => x
  refine ⟨Table.keys_modify d.accounts id _, Db.total_modify h fun _ => x, fun id' => ?_, hbalance⟩
  change ((d.accounts.modify id fun _ => x).get id').getD 0 - d.ledger id' = _
  rw [hbalance]
  unfold Db.drift
  by_cases heq : id' = id
  · rw [if_pos heq, if_pos heq.symm, heq]
    ring
  · rw [if_neg heq, if_neg (Ne.symm heq)]
    ring

theorem Direction.sign_type (direction : Direction) (amount : ℚ) :
    direction.type.sign * amount = direction.signed amount := by
  cases direction
  · exact one_mul amount
  · exact neg_one_mul amount

/-! ## The statements of a settlement and of a transfer -/

theorem flows_statements (lease : LeaseInfo) (cost : ℚ) : flows (statements lease cost) = 0 := by
  simp only [flows, statements, List.map_cons, List.map_nil, List.sum_cons, List.sum_nil, Write.flow,
    PROVIDER_SHARE, PLATFORM_SHARE]
  ring

theorem gaps_statements (lease : LeaseInfo) (cost : ℚ) (id : String) :
    gaps id (statements lease cost) = 0 := by
  simp only [gaps, statements, List.map_cons, List.map_nil, List.sum_cons, List.sum_nil, Write.gap,
    Transaction.signed, TransactionType.sign]
  split_ifs <;> ring

theorem flows_credit (c : TransferCall) : flows c.credit = c.amount := by
  simp only [flows, TransferCall.credit, List.map_cons, List.map_nil, List.sum_cons, List.sum_nil,
    Write.flow]
  ring

theorem gaps_credit (c : TransferCall) (id : String) :
    gaps id c.credit = (Write.addBalance c.fromId c.amount).gap id := by
  simp only [gaps, TransferCall.credit, List.map_cons, List.map_nil, List.sum_cons, List.sum_nil,
    Write.gap, Transaction.signed, TransactionType.sign]
  split_ifs <;> ring

end TreeMiner.Server
