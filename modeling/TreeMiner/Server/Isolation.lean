import Mathlib.Tactic.Ring
import TreeMiner.Lib.Slots
import TreeMiner.Server.Bank

/-! When the transaction of a settlement is its own. `BEGIN`, `commit` and `ROLLBACK` act on
whatever the one connection holds: a settlement that finds a transaction open, or one that
is going to roll back while another coroutine writes, takes the other's writes with it. -/

namespace TreeMiner.Server

open Lib

/-- The coroutine that is left. -/
def Turn.rest {κ ρ : Type} : Turn κ ρ → Option κ
  | .live call => some call
  | _ => none

def Turn.done {κ ρ : Type} : Turn κ ρ → Bool
  | .returned _ => true
  | _ => false

@[simp] theorem Turn.rest_map {κ κ' ρ ρ' : Type} (f : κ → κ') (g : ρ → ρ') (t : Turn κ ρ) :
    (t.map f g).rest = t.rest.map f := by
  cases t <;> rfl

/-! ## Accounts -/

def LeaseInfo.accounts (lease : LeaseInfo) : List String :=
  [lease.consumerId, lease.workerId, PLATFORM_ACCOUNT_ID]

/-- Every account that a settlement of the lease moves is there. -/
def Provided (d : Db) (lease : LeaseInfo) : Prop := ∀ id ∈ lease.accounts, id ∈ d.accounts.keys

instance (d : Db) (lease : LeaseInfo) : Decidable (Provided d lease) :=
  inferInstanceAs (Decidable (∀ id ∈ lease.accounts, id ∈ d.accounts.keys))

/-- The account a statement of a transaction is about. -/
def Write.account : Write → Option String
  | .addBalance accountId _ => some accountId
  | .insertTransaction t => some t.accountId
  | _ => none

/-- The statement finds its account. -/
def Db.Finds (d : Db) (w : Write) : Prop := ∃ id ∈ w.account, id ∈ d.accounts.keys

theorem Db.not_rejects_of_finds {d : Db} {w : Write} (h : d.Finds w) : d.rejects w = false := by
  obtain ⟨id, hid, hmem⟩ := h
  obtain ⟨x, hx⟩ := Table.mem_keys_iff.1 hmem
  cases w <;> cases hid
  · rfl
  · simp [Db.rejects, hx]

theorem Db.rejects_insertTransaction {d : Db} {t : Transaction} :
    d.rejects (.insertTransaction t) = true ↔ t.accountId ∉ d.accounts.keys := by
  rw [Table.mem_keys_iff]
  simp [Db.rejects, Option.eq_none_iff_forall_ne_some]

theorem statements_account {lease : LeaseInfo} {totalCost : ℚ} {w : Write}
    (h : w ∈ statements lease totalCost) : ∃ id ∈ w.account, id ∈ lease.accounts := by
  simp only [statements, List.mem_cons, List.not_mem_nil, or_false] at h
  rcases h with rfl | rfl | rfl | rfl | rfl | rfl <;> simp [Write.account, LeaseInfo.accounts]

theorem finds_statements {d : Db} {lease : LeaseInfo} (h : Provided d lease) (totalCost : ℚ) :
    ∀ w ∈ statements lease totalCost, d.Finds w := by
  intro w hw
  obtain ⟨id, hid, hmem⟩ := statements_account hw
  exact ⟨id, hid, h id hmem⟩

/-- The row of an account that is not there is among the statements. -/
theorem unprovided_statements {d : Db} {lease : LeaseInfo} (h : ¬ Provided d lease)
    (totalCost : ℚ) :
    ∃ t, .insertTransaction t ∈ statements lease totalCost ∧ t.accountId ∉ d.accounts.keys := by
  simp only [Provided, not_forall] at h
  obtain ⟨id, hid, hmem⟩ := h
  simp only [LeaseInfo.accounts, List.mem_cons, List.not_mem_nil, or_false] at hid
  rcases hid with rfl | rfl | rfl
  · exact ⟨⟨_, .leaseCharge, totalCost, lease.leaseId⟩, by simp [statements], hmem⟩
  · exact ⟨⟨_, .providerPayout, totalCost * PROVIDER_SHARE, lease.leaseId⟩, by simp [statements],
      hmem⟩
  · refine ⟨⟨_, .platformFee, totalCost * PLATFORM_SHARE, lease.leaseId⟩, ?_, hmem⟩
    exact List.mem_of_getLast? rfl

/-- No statement takes an account away. -/
theorem Db.keys_apply {d : Db} (w : Write) {id : String} (h : id ∈ d.accounts.keys) :
    id ∈ (d.apply w).accounts.keys := by
  cases w with
  | createAccount accountId balance =>
    rw [Table.mem_keys_iff] at h ⊢
    obtain ⟨x, hx⟩ := h
    change ∃ a, (d.accounts.insert accountId balance).get id = some a
    rw [Table.get_insert]
    split_ifs with hnew
    · exact ⟨balance, rfl⟩
    · exact ⟨x, hx⟩
  | setBalance accountId balance => exact (Table.keys_modify d.accounts accountId _).symm ▸ h
  | addBalance accountId amount => exact (Table.keys_modify d.accounts accountId _).symm ▸ h
  | upsertWorker workerId state now =>
    simp only [apply]
    split_ifs <;> exact h
  | _ => exact h

/-- A statement of a transaction leaves the accounts that there are. -/
theorem Db.keys_apply_of_account {d : Db} {w : Write} (h : w.account.isSome) :
    (d.apply w).accounts.keys = d.accounts.keys := by
  cases w with
  | addBalance accountId amount => exact Table.keys_modify d.accounts accountId _
  | insertTransaction t => rfl
  | _ => cases h

theorem Provided.apply {d : Db} {lease : LeaseInfo} (h : Provided d lease) (w : Write) :
    Provided (d.apply w) lease := fun id hid => Db.keys_apply w (h id hid)

theorem Db.Finds.apply {d : Db} {w : Write} (h : d.Finds w) (w' : Write) : (d.apply w').Finds w := by
  obtain ⟨id, hid, hmem⟩ := h
  exact ⟨id, hid, Db.keys_apply w' hmem⟩

/-! ## Steps -/

/-- The connection as `BEGIN` leaves it. -/
def Store.begun (s : Store) : Store := { s with conn := { s.conn with opened := some [] } }

namespace SettleCall

/-- After its `BEGIN` and not past its commit or `ROLLBACK`. -/
def inTransaction (c : SettleCall) : Bool :=
  match c.pc with
  | .select | .exec _ | .noAccount | .failed => true
  | _ => false

/-- The next step is its `BEGIN`. -/
def begins (c : SettleCall) : Bool := c.pc = .begin

variable {lease : LeaseInfo} {totalCost : ℚ} {s : Store} (who : Nat)

theorem step_begin (h : s.conn.opened = none) :
    step who ⟨lease, totalCost, .begin⟩ s = (.live ⟨lease, totalCost, .select⟩, s.begun) := by
  simp only [step, Store.beginImmediate, Connection.begin_of_none h, Option.map_some, Store.begun]

theorem step_select_none (h : lease.consumerId ∉ s.db.accounts.keys) :
    step who ⟨lease, totalCost, .select⟩ s = (.live ⟨lease, totalCost, .noAccount⟩, s) := by
  rw [Table.mem_keys_iff, not_exists, ← Option.eq_none_iff_forall_ne_some] at h
  simp only [step, h]

theorem step_select_some (totalCost : ℚ) (h : lease.consumerId ∈ s.db.accounts.keys) :
    ∃ balance, s.db.accounts.get lease.consumerId = some balance ∧
      step who ⟨lease, totalCost, .select⟩ s =
        (.live ⟨lease, charge totalCost balance, .exec (statements lease (charge totalCost balance))⟩,
          s) := by
  obtain ⟨balance, hbalance⟩ := Table.mem_keys_iff.1 h
  exact ⟨balance, hbalance, by simp only [step, hbalance]⟩

theorem step_exec {w : Write} {todo : List Write} (h : s.db.rejects w = false) :
    step who ⟨lease, totalCost, .exec (w :: todo)⟩ s =
      (.live ⟨lease, totalCost, .exec todo⟩, s.write who w) := by
  simp only [step, Store.execute_ok who h]

theorem step_exec_failed {w : Write} {todo : List Write} (h : s.db.rejects w = true) :
    step who ⟨lease, totalCost, .exec (w :: todo)⟩ s =
      (.live ⟨lease, totalCost, .failed⟩, s.enter) := by
  simp only [step, Store.execute, h, if_true]

theorem step_rollback {c : SettleCall} {l : List Entry} (h : s.conn.opened = some l)
    (hpc : c.pc = .noAccount ∨ c.pc = .failed) :
    step who c s = (.returned none,
      { s with conn := { s.conn with opened := none }
               undone := s.undone ++ l.map fun e => (who, e) }) := by
  have hrollback : s.rollback who = some
      { s with conn := { s.conn with opened := none }
               undone := s.undone ++ l.map fun e => (who, e) } := by
    simp only [Store.rollback, Connection.rollback_of_some h, Option.map_some, h, Option.getD_some]
  rcases hpc with hpc | hpc <;> simp only [step, hpc, hrollback, Option.getD_some]

end SettleCall

namespace Call

/-- The next step writes, commits, opens or rolls back. -/
def touches : Call → Bool
  | .balance c => c.pc ≠ .get
  | .transfer c => c.pc ≠ .debit ∨ 0 < c.amount
  | .settle c => c.pc ≠ .select
  | .repo (.heartbeat ..) => false
  | .repo _ => true

def begins : Call → Bool
  | .settle c => c.begins
  | _ => false

/-- A step that touches nothing leaves the connection as it is. -/
theorem step_of_not_touches {c : Call} (h : c.touches = false) (who : Nat) (now : ℚ) (s : Store) :
    (c.step who now s).2 = s := by
  cases c with
  | balance c =>
    have hpc : c.pc = .get := by simpa [touches] using h
    simp only [step, BalanceCall.step, hpc]
    split_ifs
    · rfl
    · cases s.db.accounts.get c.accountId with
      | none => rfl
      | some balance =>
        dsimp only
        split_ifs <;> rfl
  | transfer c =>
    have hpc : c.pc = .debit ∧ c.amount ≤ 0 := by simpa [touches] using h
    simp only [step, TransferCall.step, hpc.1]
    rw [if_pos hpc.2]
  | settle c =>
    have hpc : c.pc = .select := by simpa [touches] using h
    simp only [step, SettleCall.step, hpc]
    cases s.db.accounts.get c.lease.consumerId <;> rfl
  | repo c =>
    cases c with
    | heartbeat workerId hashrate activeGpus => rfl
    | exec todo => cases h

end Call

/-! ## A settlement that misses an account -/

theorem Store.enter_of_some {s : Store} {l : List Entry} (h : s.conn.opened = some l) :
    s.enter = s := by
  obtain ⟨base, ⟨committed, opened⟩, undone⟩ := s
  cases h
  rfl

/-- In its transaction, with a row to come that is rejected. -/
structure Missing (s : Store) (c : SettleCall) : Prop where
  inside : c.inTransaction = true
  unprovided : ¬ Provided s.db c.lease
  opened : ∃ own, s.conn.opened = some own
  todo : ∀ todo, c.pc = .exec todo → (∀ w ∈ todo, w.account.isSome) ∧
    ∃ t, .insertTransaction t ∈ todo ∧ t.accountId ∉ s.db.accounts.keys

/-- A step inside the transaction: what it writes is its own and still open. -/
structure Inside (who : Nat) (s s' : Store) : Prop where
  base : s'.base = s.base
  undone : s'.undone = s.undone
  committed : s'.conn.committed = s.conn.committed
  keys : s'.db.accounts.keys = s.db.accounts.keys
  own : ∃ l, s'.conn.opened = some (s.conn.opened.getD [] ++ l) ∧ ∀ e ∈ l, e.who = who

theorem inside_refl {who : Nat} {s : Store} {own : List Entry} (h : s.conn.opened = some own) :
    Inside who s s where
  base := rfl
  undone := rfl
  committed := rfl
  keys := rfl
  own := ⟨[], by rw [h]; exact congrArg some (List.append_nil own).symm, fun e he => by cases he⟩

theorem inside_write (who : Nat) (s : Store) {w : Write} (h : w.account.isSome) :
    Inside who s (s.write who w) where
  base := rfl
  undone := rfl
  committed := rfl
  keys := by
    rw [Store.db_write]
    exact Db.keys_apply_of_account h
  own := ⟨[⟨who, w⟩], rfl, fun e he => by rw [List.mem_singleton.1 he]⟩

/-- It goes on missing the account, by itself, until its `ROLLBACK`. -/
theorem Missing.step {s : Store} {c : SettleCall} (h : Missing s c) (who : Nat) :
    (∃ c' s', c.step who s = (.live c', s') ∧ c'.lease = c.lease ∧ Missing s' c' ∧
      Inside who s s') ∨
    c.step who s = (.returned none,
      { s with conn := { s.conn with opened := none }
               undone := s.undone ++ (s.conn.opened.getD []).map fun e => (who, e) }) := by
  obtain ⟨inside, unprovided, ⟨own, opened⟩, todo⟩ := h
  have hback : c.pc = .noAccount ∨ c.pc = .failed → c.step who s = (.returned none,
      { s with conn := { s.conn with opened := none }
               undone := s.undone ++ (s.conn.opened.getD []).map fun e => (who, e) }) := by
    intro hpc
    rw [SettleCall.step_rollback who opened hpc, opened]
    rfl
  obtain ⟨lease, cost, pc⟩ := c
  cases pc with
  | begin => cases inside
  | record => cases inside
  | recordCommit => cases inside
  | noAccount => exact Or.inr (hback (Or.inl rfl))
  | failed => exact Or.inr (hback (Or.inr rfl))
  | select =>
    left
    by_cases hconsumer : lease.consumerId ∈ s.db.accounts.keys
    · obtain ⟨balance, -, hstep⟩ := SettleCall.step_select_some who cost hconsumer
      refine ⟨_, _, hstep, rfl, ⟨rfl, unprovided, ⟨own, opened⟩, fun todo htodo => ?_⟩,
        inside_refl opened⟩
      cases htodo
      refine ⟨fun w hw => ?_, unprovided_statements unprovided _⟩
      obtain ⟨id, hid, -⟩ := statements_account hw
      exact Option.isSome_iff_exists.2 ⟨id, hid⟩
    · refine ⟨_, _, SettleCall.step_select_none who hconsumer, rfl,
        ⟨rfl, unprovided, ⟨own, opened⟩, fun todo htodo => ?_⟩, inside_refl opened⟩
      cases htodo
  | exec todo' =>
    left
    obtain ⟨hall, t, ht, hmiss⟩ := todo todo' rfl
    cases todo' with
    | nil => cases ht
    | cons w todo' =>
      cases hr : s.db.rejects w with
      | true =>
        refine ⟨_, _, SettleCall.step_exec_failed who hr, rfl, ?_⟩
        rw [Store.enter_of_some opened]
        refine ⟨⟨rfl, unprovided, ⟨own, opened⟩, fun todo htodo => ?_⟩, inside_refl opened⟩
        cases htodo
      | false =>
        have hwrite := inside_write who s (hall w List.mem_cons_self)
        refine ⟨_, _, SettleCall.step_exec who hr, rfl,
          ⟨rfl, fun hp => unprovided fun id hid => hwrite.keys ▸ hp id hid, ⟨_, rfl⟩,
            fun todo htodo => ?_⟩, hwrite⟩
        cases htodo
        refine ⟨fun w' hw' => hall w' (List.mem_cons_of_mem _ hw'), t, ?_, hwrite.keys ▸ hmiss⟩
        rcases List.mem_cons.1 ht with heq | hmem
        · rw [← heq, Db.rejects_insertTransaction.2 hmiss] at hr
          cases hr
        · exact hmem

theorem Store.db_begun {s : Store} (h : s.conn.opened = none) : s.begun.db = s.db := by
  have hview : s.begun.conn.view = s.conn.view := by
    rw [Connection.view_of_none h]
    exact List.append_nil _
  unfold Store.db
  rw [hview]
  rfl

theorem Missing.begun {s : Store} (h : s.conn.opened = none) {lease : LeaseInfo}
    (hp : ¬ Provided s.db lease) (totalCost : ℚ) : Missing s.begun ⟨lease, totalCost, .select⟩ where
  inside := rfl
  unprovided := Store.db_begun h ▸ hp
  opened := ⟨[], rfl⟩
  todo _ htodo := by cases htodo

/-! ## The other coroutines -/

/-- What a coroutine can do to the connection in a step without `BEGIN` and `ROLLBACK`. -/
inductive Store.Touched (who : Nat) (s : Store) : Store → Prop
  | same : Touched who s s
  | enter : Touched who s s.enter
  | write (w : Write) : Touched who s (s.write who w)
  | commit : Touched who s s.commit

theorem Store.touched_execute (s : Store) (who : Nat) (w : Write) :
    Touched who s (s.execute who w).1 := by
  unfold Store.execute
  split_ifs
  · exact .enter
  · exact .write w

theorem Store.Touched.base {who : Nat} {s s' : Store} (h : s.Touched who s') :
    s'.base = s.base ∧ s'.undone = s.undone := by
  cases h <;> exact ⟨rfl, rfl⟩

namespace Call

def isSettle : Call → Bool
  | .settle _ => true
  | _ => false

theorem balance_touched (c : BalanceCall) (who : Nat) (s : Store) :
    s.Touched who (c.step who s).2 := by
  obtain ⟨direction, accountId, amount, pc⟩ := c
  cases pc with
  | get =>
    simp only [BalanceCall.step]
    split_ifs
    · exact .same
    · cases s.db.accounts.get accountId with
      | none => exact .same
      | some balance =>
        dsimp only
        split_ifs <;> exact .same
  | update newBalance =>
    have h := s.touched_execute who (.setBalance accountId newBalance)
    simp only [BalanceCall.step]
    rcases he : s.execute who (.setBalance accountId newBalance) with ⟨s', _ | _⟩ <;>
      rw [he] at h <;> exact h
  | updateCommit => exact .commit
  | insert =>
    have h := s.touched_execute who (.insertTransaction ⟨accountId, direction.type, amount, ""⟩)
    simp only [BalanceCall.step, BalanceCall.transaction]
    rcases he : s.execute who (.insertTransaction ⟨accountId, direction.type, amount, ""⟩) with
      ⟨s', _ | _⟩ <;> rw [he] at h <;> exact h
  | insertCommit => exact .commit

theorem transfer_touched (c : TransferCall) (who : Nat) (s : Store) :
    s.Touched who (c.step who s).2 := by
  obtain ⟨fromId, toId, amount, ref, pc⟩ := c
  cases pc with
  | debit =>
    simp only [TransferCall.step]
    split_ifs
    · exact .same
    · exact .write _
    · exact .enter
  | exec todo =>
    cases todo with
    | nil => exact .commit
    | cons w todo =>
      have h := s.touched_execute who w
      simp only [TransferCall.step]
      rcases he : s.execute who w with ⟨s', _ | _⟩ <;> rw [he] at h <;> exact h

theorem repo_touched (c : RepoCall) (who : Nat) (now : ℚ) (s : Store) :
    s.Touched who (c.step who now s).2 := by
  cases c with
  | heartbeat workerId hashrate activeGpus => exact .same
  | exec todo =>
    cases todo with
    | nil => exact .commit
    | cons w todo =>
      have h := s.touched_execute who w
      simp only [RepoCall.step]
      rcases he : s.execute who w with ⟨s', _ | _⟩ <;> rw [he] at h <;> exact h

theorem step_touched {c : Call} (hc : c.isSettle = false) (who : Nat) (now : ℚ) (s : Store) :
    s.Touched who (c.step who now s).2 := by
  cases c with
  | balance c => exact balance_touched c who s
  | transfer c => exact transfer_touched c who s
  | settle c => cases hc
  | repo c => exact repo_touched c who now s

theorem step_base (c : Call) (who : Nat) (now : ℚ) (s : Store) :
    (c.step who now s).2.base = s.base := by
  cases hc : c.isSettle with
  | false => exact (step_touched hc who now s).base.1
  | true =>
    cases c with
    | settle c =>
      change (c.step who s).2.base = s.base
      obtain ⟨lease, cost, pc⟩ := c
      cases pc with
      | begin =>
        simp only [SettleCall.step, Store.beginImmediate]
        cases s.conn.begin <;> rfl
      | select =>
        simp only [SettleCall.step]
        cases s.db.accounts.get lease.consumerId <;> rfl
      | exec todo =>
        cases todo with
        | nil => rfl
        | cons w todo =>
          simp only [SettleCall.step, Store.execute]
          split_ifs <;> rfl
      | noAccount =>
        simp only [SettleCall.step, Store.rollback]
        cases s.conn.rollback <;> rfl
      | failed =>
        simp only [SettleCall.step, Store.rollback]
        cases s.conn.rollback <;> rfl
      | record =>
        simp only [SettleCall.step, Store.execute]
        split_ifs <;> rfl
      | recordCommit => rfl
    | _ => cases hc

end Call

namespace Bank

/-- The settlement under a number, while it is in its transaction. -/
def settling (b : Bank) (who : Nat) : Option SettleCall :=
  match b.call? who with
  | some (.settle c) => if c.inTransaction then some c else none
  | _ => none

theorem settling_eq_some {b : Bank} {who : Nat} {c : SettleCall} :
    b.settling who = some c ↔ b.call? who = some (.settle c) ∧ c.inTransaction = true := by
  unfold settling
  rcases b.call? who with _ | (_ | _ | c' | _) <;> simp
  constructor
  · rintro ⟨hin, rfl⟩
    exact ⟨rfl, hin⟩
  · rintro ⟨rfl, hin⟩
    exact ⟨hin, rfl⟩

/-- A settlement opens its transaction when none is open, and while one is in a transaction
that misses an account nobody else touches the connection. -/
def Isolated (b : Bank) : Event → Prop
  | .request _ => True
  | .step who _ => ∀ c ∈ b.call? who,
      (c.begins → b.store.conn.opened = none) ∧
        (c.touches → ∀ j < b.calls.length, j ≠ who → ∀ s ∈ b.settling j, Provided b.db s.lease)

instance (b : Bank) (ev : Event) : Decidable (b.Isolated ev) := by
  cases ev with
  | request r => exact inferInstanceAs (Decidable True)
  | step who now =>
    exact inferInstanceAs (Decidable (∀ c ∈ b.call? who, (c.begins → b.store.conn.opened = none) ∧
      (c.touches → ∀ j < b.calls.length, j ≠ who → ∀ s ∈ b.settling j, Provided b.db s.lease)))

/-- The other half of isolation, for a settlement by its call. -/
theorem Isolated.provided {b : Bank} {who j : Nat} {now : ℚ} {c : Call} {s : SettleCall}
    (h : b.Isolated (.step who now)) (hc : b.call? who = some c) (ht : c.touches = true)
    (hj : j ≠ who) (hs : b.call? j = some (.settle s)) (hin : s.inTransaction = true) :
    Provided b.db s.lease :=
  (h c hc).2 ht j (lt_of_join hs) hj s (settling_eq_some.2 ⟨hs, hin⟩)

/-! ## The scheduler -/

/-- Deposits less withdrawals. -/
def net (b : Bank) : ℚ := b.deposited - b.withdrawn

end Bank

/-- What the books of a call gain when it returns. -/
def Call.booked : Call → ℚ
  | .balance c => c.direction.signed c.amount
  | _ => 0

namespace Bank

theorem step_idle {b : Bank} {who : Nat} {now : ℚ} (h : b.call? who = none) :
    b.step (.step who now) = b := by
  simp only [step, h]

theorem book_frame (b : Bank) (c : Call) :
    (b.book c).store = b.store ∧ (b.book c).calls = b.calls ∧ (b.book c).net = b.net + c.booked := by
  rcases c with ⟨⟨⟩, accountId, amount, pc⟩ | c | c | c
  · refine ⟨rfl, rfl, ?_⟩
    simp only [book, net, Call.booked, Direction.signed]
    ring
  · refine ⟨rfl, rfl, ?_⟩
    simp only [book, net, Call.booked, Direction.signed]
    ring
  · exact ⟨rfl, rfl, (add_zero _).symm⟩
  · exact ⟨rfl, rfl, (add_zero _).symm⟩
  · exact ⟨rfl, rfl, (add_zero _).symm⟩

/-- What a step of a live coroutine does to the scheduler's state. -/
theorem step_live {b : Bank} {who : Nat} {c : Call} (h : b.call? who = some c) (now : ℚ) :
    (b.step (.step who now)).store = (c.step who now b.store).2 ∧
      (b.step (.step who now)).calls = b.calls.set who (c.step who now b.store).1.rest ∧
      (b.step (.step who now)).net =
        b.net + if (c.step who now b.store).1.done then c.booked else 0 := by
  simp only [step, h]
  rcases hstep : c.step who now b.store with ⟨c' | _ | _, store⟩
  · exact ⟨rfl, rfl, (add_zero _).symm⟩
  · exact book_frame _ _
  · exact ⟨rfl, rfl, (add_zero _).symm⟩

theorem step_base (b : Bank) (ev : Event) : (b.step ev).store.base = b.store.base := by
  cases ev with
  | request r => rfl
  | step who now =>
    cases hc : b.call? who with
    | none => rw [step_idle hc]
    | some c =>
      rw [(step_live hc now).1]
      exact c.step_base who now b.store

theorem call?_set {b b' : Bank} {who : Nat} {o : Option Call} (hb : who < b.calls.length)
    (h : b'.calls = b.calls.set who o) (j : Nat) :
    b'.call? j = if j = who then o else b.call? j := by
  unfold call?
  rw [h]
  exact join_set hb o j

theorem call?_request (b : Bank) (r : Request) (j : Nat) :
    (b.step (.request r)).call? j = if j = b.calls.length then some r.call else b.call? j :=
  join_snoc b.calls (some r.call) j

end Bank

/-! ## A rented worker -/

/-- A consumer, a worker that is online and the treasury. -/
def rentedDb : Db where
  accounts := ⟨[("consumer", 100), ("worker", 0), (PLATFORM_ACCOUNT_ID, 0)], by decide⟩
  transactions := []
  leases := ⟨[("lease", ⟨"worker", "consumer", 60, 1 / 2, .completed, 0, some 60, 0, 0, 0⟩)],
    by decide⟩
  workers := ⟨[("worker", ⟨"AVAILABLE", 0, 0, 0, 0, none, 30, 60, 86400, 0⟩)], by decide⟩
  settlements := .empty

def rentedLease : LeaseInfo := ⟨"lease", "worker", "consumer", 60, some (1 / 2), 0⟩

end TreeMiner.Server
