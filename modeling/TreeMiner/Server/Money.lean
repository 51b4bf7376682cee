import TreeMiner.Server.Ledger

/-! Deposits, withdrawals, transfers and settlements on one connection. Between two awaits a
call has moved money that it has not accounted for yet; when each call finds the state it
relies on, the balances, the rows and the books agree up to these amounts in every state. -/

namespace TreeMiner.Server

open Lib

/-! ## What a call has under way -/

namespace Call

/-- What it has added to the balances and is not booked for. -/
def float : Call → ℚ
  | .balance ⟨_, _, _, .get⟩ | .balance ⟨_, _, _, .update _⟩ => 0
  | .balance c => c.direction.signed c.amount
  | .transfer ⟨_, _, _, _, .exec todo⟩ => -flows todo
  | .settle ⟨_, _, .exec todo⟩ => -flows todo
  | _ => 0

/-- What it has added to an account's balance and not to its rows. -/
def gap (id : String) : Call → ℚ
  | .balance ⟨direction, accountId, amount, .updateCommit⟩
  | .balance ⟨direction, accountId, amount, .insert⟩ =>
    if accountId = id then direction.signed amount else 0
  | .transfer ⟨_, _, _, _, .exec todo⟩ => -gaps id todo
  | .settle ⟨_, _, .exec todo⟩ => -gaps id todo
  | _ => 0

end Call

/-- Every statement is about one of these accounts. -/
def Within (keys : List String) (todo : List Write) : Prop :=
  ∀ w ∈ todo, ∃ id ∈ w.account, id ∈ keys

/-- What a call has learnt about the accounts it goes on to write. -/
def BalanceCall.Fit (keys : List String) (c : BalanceCall) : Prop :=
  match c.pc with
  | .get => True
  | .update newBalance =>
    0 < c.amount ∧ c.accountId ∈ keys ∧ (c.direction = .withdraw → 0 ≤ newBalance)
  | _ => c.accountId ∈ keys

def TransferCall.Fit (keys : List String) (c : TransferCall) : Prop :=
  match c.pc with
  | .debit => True
  | .exec todo => Within keys todo ∧ ∀ id amount, .addBalance id amount ∈ todo → 0 ≤ amount

/-- A settlement in its transaction has its accounts and is not rolling back. -/
def SettleCall.Fit (keys : List String) (c : SettleCall) : Prop :=
  match c.pc with
  | .select => ∀ id ∈ c.lease.accounts, id ∈ keys
  | .exec todo => (∀ id ∈ c.lease.accounts, id ∈ keys) ∧ Within keys todo
  | .noAccount | .failed => False
  | _ => True

def Call.Fit (keys : List String) : Call → Prop
  | .balance c => c.Fit keys
  | .transfer c => c.Fit keys
  | .settle c => c.Fit keys
  | .repo _ => False

/-! ## What a call relies on -/

namespace BalanceCall

/-- The balance about to be written. -/
def updating (c : BalanceCall) : Option ℚ :=
  match c.pc with
  | .update newBalance => some newBalance
  | _ => none

/-- The balance written comes from the one that is there. -/
def Sound (d : Db) (c : BalanceCall) : Prop :=
  ∀ newBalance ∈ c.updating, ∀ balance ∈ d.accounts.get c.accountId,
    newBalance = c.newBalance balance

end BalanceCall

/-- A debit that goes through has an account to credit. -/
def TransferCall.Sound (d : Db) (c : TransferCall) : Prop :=
  c.pc = .debit → 0 < c.amount → c.covered d = true → c.toId ∈ d.accounts.keys

namespace SettleCall

/-- The relative update about to be executed. -/
def moving (c : SettleCall) : Option (String × ℚ) :=
  match c.pc with
  | .exec (.addBalance accountId amount :: _) => some (accountId, amount)
  | _ => none

/-- The account still has what the update takes. -/
def Sound (d : Db) (c : SettleCall) : Prop :=
  ∀ m ∈ c.moving, Provided d c.lease → 0 ≤ d.balance m.1 + m.2

end SettleCall

def Call.Sound (d : Db) : Call → Prop
  | .balance c => c.Sound d
  | .transfer c => c.Sound d
  | .settle c => c.Sound d
  | .repo _ => True

instance (d : Db) (c : Call) : Decidable (c.Sound d) :=
  match c with
  | .balance c => inferInstanceAs (Decidable (∀ newBalance ∈ c.updating,
      ∀ balance ∈ d.accounts.get c.accountId, newBalance = c.newBalance balance))
  | .transfer c => inferInstanceAs (Decidable (c.pc = .debit → 0 < c.amount →
      c.covered d = true → c.toId ∈ d.accounts.keys))
  | .settle c => inferInstanceAs (Decidable (∀ m ∈ c.moving,
      Provided d c.lease → 0 ≤ d.balance m.1 + m.2))
  | .repo _ => inferInstanceAs (Decidable True)

/-- The call about to run finds the state it relies on. -/
def Bank.Sound (b : Bank) : Event → Prop
  | .request _ => True
  | .step who _ => ∀ c ∈ b.call? who, c.Sound b.db

instance (b : Bank) (ev : Event) : Decidable (b.Sound ev) :=
  match ev with
  | .request _ => inferInstanceAs (Decidable True)
  | .step who _ => inferInstanceAs (Decidable (∀ c ∈ b.call? who, c.Sound b.db))

/-! ## Steps that read -/

/-- Nothing under way. -/
structure Silent (c : Call) : Prop where
  float : c.float = 0
  gap : ∀ id, c.gap id = 0

theorem within_statements {keys : List String} {lease : LeaseInfo}
    (h : ∀ id ∈ lease.accounts, id ∈ keys) (cost : ℚ) : Within keys (statements lease cost) := by
  intro w hw
  obtain ⟨id, hid, hmem⟩ := statements_account hw
  exact ⟨id, hid, h id hmem⟩

theorem silent_statements (lease : LeaseInfo) (cost : ℚ) :
    Silent (.settle ⟨lease, cost, .exec (statements lease cost)⟩) where
  float := by
    change -flows _ = 0
    rw [flows_statements, neg_zero]
  gap id := by
    change -gaps id _ = 0
    rw [gaps_statements, neg_zero]

/-- The outcome of a step that touches nothing. -/
structure IdleStep (keys : List String) (c : Call) (t : Turn Call Unit) : Prop where
  before : Silent c
  going : t.done = false
  after : ∀ c' ∈ t.rest, Silent c' ∧ c'.Fit keys

theorem idleStep_of_not_touches {c : Call} {s : Store} (h : c.touches = false)
    (hfit : c.Fit s.db.accounts.keys) (who : Nat) (now : ℚ) :
    IdleStep s.db.accounts.keys c (c.step who now s).1 := by
  cases c with
  | balance c =>
    obtain ⟨direction, accountId, amount, pc⟩ := c
    have hpc : pc = .get := by simpa [Call.touches] using h
    subst hpc
    refine ⟨⟨rfl, fun _ => rfl⟩, ?_, ?_⟩
    · simp only [Call.step, BalanceCall.step]
      split_ifs
      · rfl
      · cases s.db.accounts.get accountId with
        | none => rfl
        | some balance =>
          dsimp only
          split_ifs <;> rfl
    · intro c' hc'
      simp only [Call.step, BalanceCall.step] at hc'
      split_ifs at hc' with hamount
      · cases hc'
      · cases hget : s.db.accounts.get accountId with
        | none =>
          rw [hget] at hc'
          cases hc'
        | some balance =>
          rw [hget] at hc'
          dsimp only at hc'
          split_ifs at hc' with hcovered
          · cases hc'
          · cases hc'
            refine ⟨⟨rfl, fun _ => rfl⟩, not_le.1 hamount, Table.mem_keys_iff.2 ⟨balance, hget⟩,
              fun (hdirection : direction = .withdraw) => ?_⟩
            subst hdirection
            have hle : amount ≤ balance := not_lt.1 fun hlt => hcovered ⟨rfl, hlt⟩
            change 0 ≤ balance + -amount
            linarith
  | transfer c =>
    obtain ⟨fromId, toId, amount, ref, pc⟩ := c
    have hpc : pc = .debit ∧ amount ≤ 0 := by simpa [Call.touches] using h
    obtain ⟨rfl, hamount⟩ := hpc
    simp only [Call.step, TransferCall.step, if_pos hamount]
    exact ⟨⟨rfl, fun _ => rfl⟩, rfl, fun c' hc' => by cases hc'⟩
  | settle c =>
    obtain ⟨lease, cost, pc⟩ := c
    have hpc : pc = .select := by simpa [Call.touches] using h
    subst hpc
    obtain ⟨balance, -, hstep⟩ := SettleCall.step_select_some who cost
      (hfit lease.consumerId List.mem_cons_self)
    simp only [Call.step, hstep]
    refine ⟨⟨rfl, fun _ => rfl⟩, rfl, fun c' hc' => ?_⟩
    cases hc'
    exact ⟨silent_statements _ _, hfit, within_statements hfit _⟩
  | repo c => cases hfit

/-! ## Steps that write -/

/-- The outcome of a step in the books: what the balances gain is under way or booked. -/
structure Books (c : Call) (s : Store) (r : Turn Call Unit × Store) : Prop where
  keys : r.2.db.accounts.keys = s.db.accounts.keys
  nonneg : ∀ id, 0 ≤ r.2.db.balance id
  total : r.2.db.total + c.float =
    s.db.total + r.1.rest.elim 0 Call.float + if r.1.done then c.booked else 0
  drift : ∀ id, r.2.db.drift id + c.gap id = s.db.drift id + r.1.rest.elim 0 (Call.gap id)
  fit : ∀ c' ∈ r.1.rest, c'.Fit s.db.accounts.keys

/-- A step that leaves the tables of money alone. -/
theorem Books.same {c : Call} {s : Store} {r : Turn Call Unit × Store}
    (hd : ∀ id, 0 ≤ s.db.balance id) (hacc : r.2.db.accounts = s.db.accounts)
    (htx : r.2.db.transactions = s.db.transactions)
    (hfloat : c.float = r.1.rest.elim 0 Call.float + if r.1.done then c.booked else 0)
    (hgap : ∀ id, c.gap id = r.1.rest.elim 0 (Call.gap id))
    (hfit : ∀ c' ∈ r.1.rest, c'.Fit s.db.accounts.keys) : Books c s r where
  keys := by rw [hacc]
  nonneg id := by
    unfold Db.balance
    rw [hacc]
    exact hd id
  total := by
    unfold Db.total
    rw [hacc, hfloat, add_assoc]
  drift id := by
    unfold Db.drift Db.balance Db.ledger
    rw [hacc, htx, hgap id]
  fit := hfit

theorem IdleStep.books {c : Call} {s : Store} {r : Turn Call Unit × Store}
    (h : IdleStep s.db.accounts.keys c r.1) (hs : r.2 = s) (hd : ∀ id, 0 ≤ s.db.balance id) :
    Books c s r := by
  refine .same hd (by rw [hs]) (by rw [hs]) ?_ (fun id => ?_) fun c' hc' => (h.after c' hc').2
  · rw [h.before.float, h.going]
    cases hrest : r.1.rest with
    | none => exact (add_zero _).symm
    | some c' => exact ((add_zero _).trans (h.after c' hrest).1.float).symm
  · rw [h.before.gap]
    cases hrest : r.1.rest with
    | none => rfl
    | some c' => exact ((h.after c' hrest).1.gap id).symm

/-- A statement that finds its account, on the way to the ones that are left. -/
theorem books_write {c c' : Call} {s : Store} {w : Write} {todo : List Write} (who : Nat)
    (hd : ∀ id, 0 ≤ s.db.balance id) (hwithin : Within s.db.accounts.keys (w :: todo))
    (hw : ∀ id amount, w = .addBalance id amount → 0 ≤ s.db.balance id + amount)
    (hfloat : c.float = -flows (w :: todo)) (hgap : ∀ id, c.gap id = -gaps id (w :: todo))
    (hfloat' : c'.float = -flows todo) (hgap' : ∀ id, c'.gap id = -gaps id todo)
    (hfit : c'.Fit s.db.accounts.keys) : Books c s (.live c', s.write who w) := by
  have hfinds : s.db.Finds w := hwithin w List.mem_cons_self
  obtain ⟨id, hid, -⟩ := hfinds
  have haccount : w.account.isSome := Option.isSome_iff_exists.2 ⟨id, hid⟩
  have hfinds : s.db.Finds w := hwithin w List.mem_cons_self
  refine ⟨?_, fun id => ?_, ?_, fun id => ?_, fun c'' hc'' => ?_⟩
  · rw [Store.db_write]
    exact Db.keys_apply_of_account haccount
  · rw [Store.db_write]
    exact Db.nonneg_apply hfinds hd hw id
  · rw [Store.db_write, Db.total_apply hfinds, hfloat, flows_cons]
    change s.db.total + w.flow + -(w.flow + flows todo) = s.db.total + c'.float + 0
    rw [hfloat']
    ring
  · rw [Store.db_write, Db.drift_apply hfinds, hgap, gaps_cons]
    change s.db.drift id + w.gap id + -(w.gap id + gaps id todo) = s.db.drift id + c'.gap id
    rw [hgap']
    ring
  · cases hc''
    exact hfit

theorem within_tail {keys : List String} {w : Write} {todo : List Write}
    (h : Within keys (w :: todo)) : Within keys todo := fun w' hw' => h w' (List.mem_cons_of_mem _ hw')

theorem balance_books {c : BalanceCall} {s : Store} (who : Nat) (now : ℚ)
    (hd : ∀ id, 0 ≤ s.db.balance id) (ht : (Call.balance c).touches = true)
    (hfit : c.Fit s.db.accounts.keys) (hsound : c.Sound s.db) :
    Books (.balance c) s ((Call.balance c).step who now s) := by
  obtain ⟨direction, accountId, amount, pc⟩ := c
  cases pc with
  | get => cases ht
  | update newBalance =>
    obtain ⟨hamount, hmem, hnonneg⟩ := hfit
    have hget := Db.get_of_mem hmem
    have hnew : newBalance = s.db.balance accountId + direction.signed amount :=
      hsound newBalance rfl _ hget
    obtain ⟨hkeys, htotal, hdrift, hbalance⟩ := Db.setBalance_frame hmem newBalance
    have hexec := Store.execute_ok (s := s) (w := .setBalance accountId newBalance) who rfl
    simp only [Call.step, BalanceCall.step, hexec]
    refine ⟨?_, fun id => ?_, ?_, fun id => ?_, fun c' hc' => ?_⟩
    · rw [Store.db_write]
      exact hkeys
    · rw [Store.db_write, hbalance]
      split_ifs
      · cases direction with
        | deposit =>
          rw [hnew]
          exact add_nonneg (hd accountId) hamount.le
        | withdraw => exact hnonneg rfl
      · exact hd id
    · rw [Store.db_write, htotal, hnew]
      change _ + 0 = s.db.total + direction.signed amount + 0
      ring
    · rw [Store.db_write, hdrift, hnew, add_sub_cancel_left]
      exact add_zero _
    · cases hc'
      exact hmem
  | updateCommit =>
    refine .same hd ?_ ?_ (add_zero _).symm (fun id => rfl) fun c' hc' => ?_
    · exact congrArg Db.accounts (Store.db_commit s)
    · exact congrArg Db.transactions (Store.db_commit s)
    · cases hc'
      exact hfit
  | insert =>
    have hfinds : s.db.Finds (.insertTransaction ⟨accountId, direction.type, amount, ""⟩) :=
      ⟨accountId, rfl, hfit⟩
    have hexec := Store.execute_ok who (Db.not_rejects_of_finds hfinds)
    simp only [Call.step, BalanceCall.step, BalanceCall.transaction, hexec]
    refine ⟨?_, fun id => ?_, ?_, fun id => ?_, fun c' hc' => ?_⟩
    · rw [Store.db_write]
      rfl
    · rw [Store.db_write]
      exact hd id
    · rw [Store.db_write, Db.total_apply hfinds]
      exact add_right_comm _ _ _
    · rw [Store.db_write, Db.drift_apply hfinds]
      change s.db.drift id + (if accountId = id then -(direction.type.sign * amount) else 0) +
        (if accountId = id then direction.signed amount else 0) = s.db.drift id + 0
      rw [Direction.sign_type]
      split_ifs <;> ring
    · cases hc'
      exact hfit
  | insertCommit =>
    refine .same hd ?_ ?_ (zero_add _).symm (fun id => rfl) fun c' hc' => by cases hc'
    · exact congrArg Db.accounts (Store.db_commit s)
    · exact congrArg Db.transactions (Store.db_commit s)

theorem transfer_books {c : TransferCall} {s : Store} (who : Nat) (now : ℚ)
    (hd : ∀ id, 0 ≤ s.db.balance id) (ht : (Call.transfer c).touches = true)
    (hfit : c.Fit s.db.accounts.keys) (hsound : c.Sound s.db) :
    Books (.transfer c) s ((Call.transfer c).step who now s) := by
  obtain ⟨fromId, toId, amount, ref, pc⟩ := c
  cases pc with
  | debit =>
    have hamount : 0 < amount := by simpa [Call.touches] using ht
    cases hcovered : TransferCall.covered ⟨fromId, toId, amount, ref, .debit⟩ s.db with
    | false =>
      simp only [Call.step, TransferCall.step, if_neg (not_le.2 hamount), hcovered]
      exact .same hd rfl rfl (add_zero _).symm (fun id => rfl) fun c' hc' => by cases hc'
    | true =>
      have hto : toId ∈ s.db.accounts.keys := hsound rfl hamount hcovered
      obtain ⟨balance, hget, hle⟩ := (Option.any_eq_true _ _).1 hcovered
      have hfrom : fromId ∈ s.db.accounts.keys := Table.mem_keys_iff.2 ⟨balance, hget⟩
      have hle' : amount ≤ s.db.balance fromId := by
        rw [Db.balance_of_get hget]
        exact of_decide_eq_true hle
      have hwithin : Within s.db.accounts.keys (.addBalance fromId (-amount) ::
          TransferCall.credit ⟨fromId, toId, amount, ref, .debit⟩) := by
        intro w hw
        simp only [TransferCall.credit, List.mem_cons, List.not_mem_nil, or_false] at hw
        rcases hw with rfl | rfl | rfl | rfl
        · exact ⟨_, rfl, hfrom⟩
        · exact ⟨_, rfl, hto⟩
        · exact ⟨_, rfl, hfrom⟩
        · exact ⟨_, rfl, hto⟩
      simp only [Call.step, TransferCall.step, if_neg (not_le.2 hamount), hcovered, if_true]
      refine books_write who hd hwithin ?_ ?_ (fun id => ?_) rfl (fun id => rfl)
        ⟨within_tail hwithin, ?_⟩
      · intro id x hx
        cases hx
        linarith
      · rw [flows_cons, flows_credit]
        change 0 = -(-amount + amount)
        ring
      · rw [gaps_cons, gaps_credit]
        simp only [Call.gap, Write.gap]
        split_ifs <;> ring
      · intro id x hx
        simp only [TransferCall.credit, List.mem_cons, Write.addBalance.injEq, reduceCtorEq,
          List.not_mem_nil, or_false] at hx
        exact hx.2 ▸ hamount.le
  | exec todo =>
    cases todo with
    | nil =>
      refine .same hd ?_ ?_ ?_ (fun id => ?_) fun c' hc' => by cases hc'
      · exact congrArg Db.accounts (Store.db_commit s)
      · exact congrArg Db.transactions (Store.db_commit s)
      · exact neg_zero.trans (add_zero _).symm
      · exact neg_zero
    | cons w todo =>
      obtain ⟨hwithin, hcredit⟩ := hfit
      have hfinds : s.db.Finds w := hwithin w List.mem_cons_self
      simp only [Call.step, TransferCall.step, Store.execute_ok who (Db.not_rejects_of_finds hfinds)]
      refine books_write who hd hwithin ?_ rfl (fun id => rfl) rfl (fun id => rfl)
        ⟨within_tail hwithin, fun id x hx => hcredit id x (List.mem_cons_of_mem _ hx)⟩
      intro id x hx
      have hx' : 0 ≤ x := hcredit id x (hx ▸ List.mem_cons_self)
      exact add_nonneg (hd id) hx'

theorem settle_books {c : SettleCall} {s : Store} (who : Nat) (now : ℚ)
    (hd : ∀ id, 0 ≤ s.db.balance id) (ht : (Call.settle c).touches = true)
    (hfit : c.Fit s.db.accounts.keys) (hsound : c.Sound s.db)
    (hbegin : c.begins → s.conn.opened = none ∧ Provided s.db c.lease) :
    Books (.settle c) s ((Call.settle c).step who now s) := by
  obtain ⟨lease, cost, pc⟩ := c
  cases pc with
  | begin =>
    obtain ⟨hopened, hprovided⟩ := hbegin rfl
    simp only [Call.step, SettleCall.step_begin who hopened]
    refine .same hd ?_ ?_ (add_zero _).symm (fun id => rfl) fun c' hc' => ?_
    · exact congrArg Db.accounts (Store.db_begun hopened)
    · exact congrArg Db.transactions (Store.db_begun hopened)
    · cases hc'
      exact hprovided
  | select => cases ht
  | exec todo =>
    obtain ⟨hprovided, hwithin⟩ := hfit
    cases todo with
    | nil =>
      refine .same hd ?_ ?_ ?_ (fun id => ?_) fun c' hc' => ?_
      · exact congrArg Db.accounts (Store.db_commit s)
      · exact congrArg Db.transactions (Store.db_commit s)
      · exact neg_zero.trans (add_zero _).symm
      · exact neg_zero
      · cases hc'
        trivial
    | cons w todo =>
      obtain hfinds : s.db.Finds w := hwithin w List.mem_cons_self
      simp only [Call.step, SettleCall.step_exec who (Db.not_rejects_of_finds hfinds)]
      refine books_write who hd hwithin ?_ rfl (fun id => rfl) rfl (fun id => rfl)
        ⟨hprovided, within_tail hwithin⟩
      intro id amount hw
      subst hw
      exact hsound (id, amount) rfl hprovided
  | noAccount => cases hfit
  | failed => cases hfit
  | record =>
    simp only [Call.step, SettleCall.step]
    unfold Store.execute
    split_ifs with hr
    · exact .same hd rfl rfl (add_zero _).symm (fun id => rfl) fun c' hc' => by cases hc'
    · refine .same hd ?_ ?_ (add_zero _).symm (fun id => rfl) fun c' hc' => ?_
      · exact (congrArg Db.accounts (Store.db_write s who _)).trans rfl
      · exact (congrArg Db.transactions (Store.db_write s who _)).trans rfl
      · cases hc'
        trivial
  | recordCommit =>
    refine .same hd ?_ ?_ ?_ (fun id => rfl) fun c' hc' => by cases hc'
    · exact congrArg Db.accounts (Store.db_commit s)
    · exact congrArg Db.transactions (Store.db_commit s)
    · exact (zero_add _).symm

/-! ## All calls together -/

def pending (f : Call → ℚ) (calls : List (Option Call)) : ℚ := (calls.map fun o => o.elim 0 f).sum

theorem pending_set {f : Call → ℚ} {calls : List (Option Call)} {who : Nat} {o : Option Call}
    (h : calls[who]? = some o) (o' : Option Call) :
    pending f (calls.set who o') = pending f calls + (o'.elim 0 f - o.elim 0 f) := by
  obtain ⟨hlt, hget⟩ := List.getElem?_eq_some_iff.1 h
  unfold pending
  have hlt' : who < (calls.map fun o => o.elim 0 f).length := by
    rw [List.length_map]
    exact hlt
  rw [List.map_set, List.sum_set', dif_pos hlt', List.getElem_map, hget]
  ring

theorem pending_snoc (f : Call → ℚ) (calls : List (Option Call)) (c : Call) :
    pending f (calls ++ [some c]) = pending f calls + f c := by
  unfold pending
  rw [List.map_append, List.sum_append, List.map_singleton, List.sum_singleton]
  rfl

theorem pending_quiet {f : Call → ℚ} {calls : List (Option Call)} (h : ∀ c ∈ calls, c = none) :
    pending f calls = 0 := by
  unfold pending
  apply List.sum_eq_zero
  intro x hx
  obtain ⟨c, hc, rfl⟩ := List.mem_map.1 hx
  rw [h c hc]
  rfl

/-- The balances against the books and the rows, up to what is under way. -/
structure Balanced (base d : Db) (calls : List (Option Call)) (net : ℚ) : Prop where
  keys : d.accounts.keys = base.accounts.keys
  nonneg : ∀ id, 0 ≤ d.balance id
  total : d.total = base.total + net + pending Call.float calls
  drift : ∀ id, d.drift id = base.drift id + pending (Call.gap id) calls

namespace Balanced

variable {base d : Db} {calls : List (Option Call)} {net : ℚ} {who : Nat} {c : Call}

theorem snoc (h : Balanced base d calls net) (hc : Silent c) :
    Balanced base d (calls ++ [some c]) net where
  keys := h.keys
  nonneg := h.nonneg
  total := by rw [pending_snoc, hc.float, add_zero, h.total]
  drift id := by rw [pending_snoc, hc.gap, add_zero, h.drift]

theorem idle {keys : List String} {t : Turn Call Unit} (h : Balanced base d calls net)
    (hc : calls[who]? = some (some c)) (ht : IdleStep keys c t) :
    Balanced base d (calls.set who t.rest) net := by
  have hset : ∀ f : Call → ℚ, f c = 0 → (∀ c' ∈ t.rest, f c' = 0) →
      pending f (calls.set who t.rest) = pending f calls := by
    intro f hf hf'
    rw [pending_set hc]
    change pending f calls + (t.rest.elim 0 f - f c) = _
    rw [hf, sub_zero]
    cases hrest : t.rest with
    | none => exact add_zero _
    | some c' =>
      change pending f calls + f c' = _
      rw [hf' c' hrest, add_zero]
  refine ⟨h.keys, h.nonneg, ?_, fun id => ?_⟩
  · rw [hset _ ht.before.float fun c' hc' => (ht.after c' hc').1.float]
    exact h.total
  · rw [hset _ (ht.before.gap id) fun c' hc' => (ht.after c' hc').1.gap id]
    exact h.drift id

theorem books {s : Store} {r : Turn Call Unit × Store} (h : Balanced base s.db calls net)
    (hc : calls[who]? = some (some c)) (hr : Books c s r) :
    Balanced base r.2.db (calls.set who r.1.rest) (net + if r.1.done then c.booked else 0) where
  keys := hr.keys.trans h.keys
  nonneg := hr.nonneg
  total := by
    have htotal := hr.total
    rw [h.total] at htotal
    rw [pending_set hc]
    change _ = _ + (_ + (_ - c.float))
    linarith
  drift id := by
    have hdrift := hr.drift id
    rw [h.drift id] at hdrift
    rw [pending_set hc]
    change _ = _ + (_ + (_ - c.gap id))
    linarith

end Balanced

/-- Either everything is accounted for, or one settlement is on its way to roll back and the
committed part is accounted for without it. -/
inductive Accounted (b : Bank) : Prop
  | calm (balanced : Balanced b.store.base b.db b.calls b.net)
      (fit : ∀ i c, b.call? i = some c → c.Fit b.store.base.accounts.keys)
  | alone (j : Nat) (c : SettleCall) (call : b.call? j = some (.settle c))
      (missing : Missing b.store c) (keys : b.db.accounts.keys = b.store.base.accounts.keys)
      (balanced : Balanced b.store.base (replay b.store.base b.store.conn.committed)
        (b.calls.set j none) b.net)
      (fit : ∀ i c, i ≠ j → b.call? i = some c → c.Fit b.store.base.accounts.keys)

/-- The four calls that move money. -/
def Event.moves : Event → Bool
  | .request (.deposit ..) | .request (.withdraw ..) | .request (.transfer ..)
  | .request (.settleLease _) | .step .. => true
  | _ => false

theorem Request.call_fit {r : Request} (h : (Event.request r).moves = true) (keys : List String) :
    Silent r.call ∧ r.call.Fit keys := by
  cases r with
  | deposit accountId amount => exact ⟨⟨rfl, fun _ => rfl⟩, trivial⟩
  | withdraw accountId amount => exact ⟨⟨rfl, fun _ => rfl⟩, trivial⟩
  | transfer fromId toId amount ref => exact ⟨⟨rfl, fun _ => rfl⟩, trivial⟩
  | settleLease lease => exact ⟨⟨rfl, fun _ => rfl⟩, trivial⟩
  | _ => cases h

namespace Accounted

variable {b : Bank} {who : Nat} {now : ℚ} {c : Call}

theorem request (h : Accounted b) {r : Request} (hr : (Event.request r).moves = true) :
    Accounted (b.step (.request r)) := by
  obtain ⟨hsilent, hfit⟩ := r.call_fit hr b.store.base.accounts.keys
  cases h with
  | calm balanced fit =>
    refine .calm (balanced.snoc hsilent) fun i c hc => ?_
    rw [Bank.call?_request] at hc
    split_ifs at hc
    · cases hc
      exact hfit
    · exact fit i c hc
  | alone j c call missing keys balanced fit =>
    have hlt := lt_of_join call
    refine .alone j c ?_ missing keys ?_ fun i c' hi hc' => ?_
    · rw [Bank.call?_request, if_neg hlt.ne]
      exact call
    · change Balanced _ _ ((b.calls ++ [some r.call]).set j none) _
      rw [List.set_append_left _ _ hlt]
      exact balanced.snoc hsilent
    · rw [Bank.call?_request] at hc'
      split_ifs at hc'
      · cases hc'
        exact hfit
      · exact fit i c' hi hc'

/-- A step with its books, while everything is accounted for. -/
theorem calm_books (hc : b.call? who = some c)
    (balanced : Balanced b.store.base b.db b.calls b.net)
    (fit : ∀ i c, b.call? i = some c → c.Fit b.store.base.accounts.keys)
    (hbooks : Books c b.store (c.step who now b.store)) : Accounted (b.step (.step who now)) := by
  obtain ⟨hstore, hcalls, hnet⟩ := Bank.step_live hc now
  have hbase : (b.step (.step who now)).store.base = b.store.base := by
    rw [hstore]
    exact c.step_base who now b.store
  refine .calm ?_ fun i c' hc' => ?_
  · rw [hbase, hcalls, hnet, Bank.db, hstore]
    exact balanced.books (getElem?_of_join hc) hbooks
  · rw [Bank.call?_set (lt_of_join hc) hcalls] at hc'
    rw [hbase]
    split_ifs at hc'
    · exact balanced.keys ▸ hbooks.fit c' hc'
    · exact fit i c' hc'

/-- A settlement begins without its accounts. -/
theorem alone_of_begin {lease : LeaseInfo} {cost : ℚ}
    (hc : b.call? who = some (.settle ⟨lease, cost, .begin⟩))
    (balanced : Balanced b.store.base b.db b.calls b.net)
    (fit : ∀ i c, b.call? i = some c → c.Fit b.store.base.accounts.keys)
    (hopened : b.store.conn.opened = none) (hp : ¬ Provided b.db lease) :
    Accounted (b.step (.step who now)) := by
  have hlt := lt_of_join hc
  obtain ⟨hstore, hcalls, hnet⟩ := Bank.step_live hc now
  have hstep : (Call.settle ⟨lease, cost, .begin⟩).step who now b.store =
      (.live (.settle ⟨lease, cost, .select⟩), b.store.begun) := by
    simp only [Call.step, SettleCall.step_begin who hopened]
    rfl
  rw [hstep] at hstore hcalls hnet
  have hcall := Bank.call?_set hlt hcalls
  have hcommitted : replay b.store.base b.store.conn.committed = b.db := by
    unfold Bank.db Store.db
    rw [Connection.view_of_none hopened]
  refine .alone who ⟨lease, cost, .select⟩ ?_ ?_ ?_ ?_ fun i c' hi hc' => ?_
  · rw [hcall, if_pos rfl]
    rfl
  · rw [hstore]
    exact .begun hopened hp cost
  · rw [Bank.db, hstore, Store.db_begun hopened]
    exact balanced.keys
  · rw [hstore, hcalls, hnet, List.set_set]
    change Balanced b.store.base (replay b.store.base b.store.conn.committed) _ (b.net + 0)
    rw [hcommitted, add_zero]
    have hidle : IdleStep [] (.settle ⟨lease, cost, .begin⟩) .raised :=
      ⟨⟨rfl, fun _ => rfl⟩, rfl, fun c' hc' => by cases hc'⟩
    exact balanced.idle (getElem?_of_join hc) hidle
  · rw [hcall, if_neg hi] at hc'
    rw [hstore]
    exact fit i c' hc'

theorem calm_step (hc : b.call? who = some c)
    (balanced : Balanced b.store.base b.db b.calls b.net)
    (fit : ∀ i c, b.call? i = some c → c.Fit b.store.base.accounts.keys)
    (hbegin : c.begins → b.store.conn.opened = none) (hsound : c.Sound b.db) :
    Accounted (b.step (.step who now)) := by
  have hfit : c.Fit b.store.db.accounts.keys := balanced.keys ▸ fit who c hc
  cases ht : c.touches with
  | false =>
    have hidle := idleStep_of_not_touches ht hfit who now
    exact calm_books hc balanced fit
      (hidle.books (Call.step_of_not_touches ht who now b.store) balanced.nonneg)
  | true =>
    cases c with
    | balance c =>
      exact calm_books hc balanced fit (balance_books who now balanced.nonneg ht hfit hsound)
    | transfer c =>
      exact calm_books hc balanced fit (transfer_books who now balanced.nonneg ht hfit hsound)
    | settle c =>
      by_cases hp : c.begins = true ∧ ¬ Provided b.db c.lease
      · obtain ⟨lease, cost, pc⟩ := c
        obtain ⟨hpc, hp⟩ := hp
        have hpc' : pc = .begin := of_decide_eq_true hpc
        subst hpc'
        exact alone_of_begin hc balanced fit (hbegin rfl) hp
      · refine calm_books hc balanced fit
          (settle_books who now balanced.nonneg ht hfit hsound fun hb => ⟨hbegin hb, ?_⟩)
        by_contra hn
        exact hp ⟨hb, hn⟩
    | repo c => cases hfit

/-- The settlement that is alone takes a step. -/
theorem alone_own {c : SettleCall} (hc : b.call? who = some (.settle c)) (missing : Missing b.store c)
    (keys : b.db.accounts.keys = b.store.base.accounts.keys)
    (balanced : Balanced b.store.base (replay b.store.base b.store.conn.committed)
      (b.calls.set who none) b.net)
    (fit : ∀ i c, i ≠ who → b.call? i = some c → c.Fit b.store.base.accounts.keys) :
    Accounted (b.step (.step who now)) := by
  have hlt := lt_of_join hc
  obtain ⟨hstore, hcalls, hnet⟩ := Bank.step_live hc now
  have hcall := Bank.call?_set hlt hcalls
  have hzero : b.net + (if (Call.step who now (.settle c) b.store).1.done then
      (Call.settle c).booked else 0) = b.net := by
    split_ifs <;> exact add_zero _
  rw [hzero] at hnet
  rcases missing.step who with ⟨c', s', hstep, -, hmissing, hinside⟩ | hstep
  · simp only [Call.step, hstep] at hstore hcalls hcall
    refine .alone who c' ?_ ?_ ?_ ?_ fun i c'' hi hc'' => ?_
    · rw [hcall, if_pos rfl]
      rfl
    · rw [hstore]
      exact hmissing
    · rw [Bank.db, hstore, hinside.keys, hinside.base]
      exact keys
    · rw [hstore, hcalls, hnet, List.set_set, hinside.base, hinside.committed]
      exact balanced
    · rw [hcall, if_neg hi] at hc''
      rw [hstore, hinside.base]
      exact fit i c'' hi hc''
  · simp only [Call.step, hstep] at hstore hcalls hcall
    refine .calm ?_ fun i c'' hc'' => ?_
    · rw [Bank.db, hstore, hcalls, hnet]
      have hview : (⟨b.store.conn.committed, none⟩ : Connection Entry).view =
          b.store.conn.committed := List.append_nil _
      unfold Store.db
      change Balanced b.store.base (replay b.store.base (Connection.view ⟨_, none⟩)) _ _
      rw [hview]
      exact balanced
    · rw [hcall] at hc''
      rw [hstore]
      split_ifs at hc'' with hi
      · cases hc''
      · exact fit i c'' hi hc''

/-- Another call takes a step meanwhile. -/
theorem alone_other {j : Nat} {s : SettleCall} (hc : b.call? who = some c) (hwho : who ≠ j)
    (ht : c.touches = false) (call : b.call? j = some (.settle s)) (missing : Missing b.store s)
    (keys : b.db.accounts.keys = b.store.base.accounts.keys)
    (balanced : Balanced b.store.base (replay b.store.base b.store.conn.committed)
      (b.calls.set j none) b.net)
    (fit : ∀ i c, i ≠ j → b.call? i = some c → c.Fit b.store.base.accounts.keys) :
    Accounted (b.step (.step who now)) := by
  have hlt := lt_of_join hc
  obtain ⟨hstore, hcalls, hnet⟩ := Bank.step_live hc now
  have hcall := Bank.call?_set hlt hcalls
  have hfit : c.Fit b.store.db.accounts.keys := keys ▸ fit who c hwho hc
  have hidle := idleStep_of_not_touches ht hfit who now
  rw [Call.step_of_not_touches ht who now b.store] at hstore
  rw [hidle.going] at hnet
  have hget : (b.calls.set j none)[who]? = some (some c) := by
    rw [List.getElem?_set_ne (Ne.symm hwho)]
    exact getElem?_of_join hc
  refine .alone j s ?_ ?_ ?_ ?_ fun i c' hi hc' => ?_
  · rw [hcall, if_neg (Ne.symm hwho)]
    exact call
  · rw [hstore]
    exact missing
  · rw [Bank.db, hstore]
    exact keys
  · rw [hstore, hcalls, hnet, List.set_comm _ _ hwho]
    change Balanced _ _ _ (b.net + 0)
    rw [add_zero]
    exact balanced.idle hget hidle
  · rw [hcall] at hc'
    rw [hstore]
    split_ifs at hc' with hi'
    · exact keys ▸ (hidle.after c' hc').2
    · exact fit i c' hi hc'

theorem step (h : Accounted b) {ev : Event} (hmoves : ev.moves = true) (hiso : b.Isolated ev)
    (hsound : b.Sound ev) : Accounted (b.step ev) := by
  cases ev with
  | request r => exact h.request hmoves
  | step who now =>
    cases hc : b.call? who with
    | none =>
      rw [Bank.step_idle hc]
      exact h
    | some c =>
      cases h with
      | calm balanced fit => exact calm_step hc balanced fit (hiso c hc).1 (hsound c hc)
      | alone j s call missing keys balanced fit =>
        by_cases hwho : who = j
        · subst hwho
          rw [call] at hc
          cases hc
          exact alone_own call missing keys balanced fit
        · have ht : c.touches = false := by
            cases ht : c.touches with
            | false => rfl
            | true =>
              exact absurd (hiso.provided hc ht (Ne.symm hwho) call missing.inside)
                missing.unprovided
          exact alone_other hc hwho ht call missing keys balanced fit

end Accounted

/-! ## Runs -/

/-- The balances against the initial ones: in all, each at zero or above, and each by its
rows since. -/
structure Conserved (base : Db) (b : Bank) : Prop where
  total : b.db.total = base.total + b.deposited - b.withdrawn
  nonneg : ∀ id, 0 ≤ b.db.balance id
  ledger : ∀ id, b.db.balance id = base.balance id + (b.db.ledger id - base.ledger id)

theorem Accounted.conserved {b : Bank} (h : Accounted b) (hquiet : b.Quiet) :
    Conserved b.store.base b := by
  cases h with
  | calm balanced fit =>
    refine ⟨?_, balanced.nonneg, fun id => ?_⟩
    · have htotal := balanced.total
      rw [pending_quiet hquiet, add_zero, Bank.net] at htotal
      rw [htotal]
      ring
    · have hdrift := balanced.drift id
      rw [pending_quiet hquiet, add_zero] at hdrift
      unfold Db.drift at hdrift
      linarith
  | alone j c call =>
    have hmem := List.mem_of_getElem? (getElem?_of_join call)
    cases hquiet _ hmem

theorem accounted_start {base : Db} (h : ∀ id, 0 ≤ base.balance id) : Accounted (.start base) := by
  refine .calm ⟨rfl, h, ?_, fun id => (add_zero _).symm⟩ fun i c hc => by cases hc
  change base.total = base.total + (0 - 0) + 0
  ring

/-- In every run of the four calls whose steps leave settlements isolated and find what they
rely on, money is conserved in every state without a call in flight. -/
theorem money_conserved {base : Db} (hbase : ∀ id, 0 ≤ base.balance id) {b : Bank}
    {ts : List (Trans Bank Event)}
    (hrun : Run (fun b ev b' => b' = b.step ev) (Bank.start base) ts b)
    (hmoves : ∀ t ∈ ts, t.ev.moves = true) (hiso : ∀ t ∈ ts, t.pre.Isolated t.ev)
    (hsound : ∀ t ∈ ts, t.pre.Sound t.ev) :
    ∀ b ∈ visited (Bank.start base) ts, b.Quiet → Conserved base b := by
  intro b hb hquiet
  obtain ⟨hacc, hb⟩ := (hrun.inv_of (I := fun b => Accounted b ∧ b.store.base = base)
    (C := fun t => t.ev.moves = true ∧ t.pre.Isolated t.ev ∧ t.pre.Sound t.ev) (by
      intro t (ht : t.post = t.pre.step t.ev) ⟨hacc, hb⟩ ⟨h1, h2, h3⟩
      rw [ht]
      exact ⟨hacc.step h1 h2 h3, (Bank.step_base t.pre t.ev).trans hb⟩)
    ⟨accounted_start hbase, rfl⟩ fun t ht => ⟨hmoves t ht, hiso t ht, hsound t ht⟩).1 b hb
  exact hb ▸ hacc.conserved hquiet

/-- A deposit, a transfer, a settlement and a withdrawal whose statements alternate. -/
def alternating : List Event :=
  [.request (.deposit "worker" 10), .request (.transfer "consumer" "worker" 5 "tip"),
    .request (.settleLease rentedLease), .step 0 1, .step 0 1, .step 1 1, .step 0 1, .step 1 1,
    .step 0 1, .step 1 1, .step 1 1, .step 1 1, .step 0 1, .step 2 2, .step 2 2,
    .request (.withdraw "worker" 12), .step 2 2, .step 2 2, .step 2 2, .step 2 2, .step 2 2,
    .step 2 2, .step 3 3, .step 2 3, .step 3 3, .step 2 3, .step 3 3, .step 2 3, .step 3 3,
    .step 3 3]

theorem nonneg_rentedDb (id : String) : 0 ≤ rentedDb.balance id := by
  unfold Db.balance
  cases hget : rentedDb.accounts.get id with
  | none => exact le_rfl
  | some x =>
    have hall : ∀ row ∈ rentedDb.accounts.rows, 0 ≤ row.2 := by decide +kernel
    exact hall _ (Table.mem_rows_iff.2 hget)

theorem money_conserved_alternating :
    Conserved rentedDb (alternating.foldl Bank.step (.start rentedDb)) := by
  have hrun := Run.trace Bank.step (.start rentedDb) alternating
  refine money_conserved nonneg_rentedDb hrun ?_ ?_ ?_ _ hrun.mem_visited ?_
  · decide +kernel
  · decide +kernel
  · decide +kernel
  · decide +kernel

/-- Two deposits read the same balance. -/
def lostDeposit : List Event :=
  [.request (.deposit "consumer" 10), .request (.deposit "consumer" 20), .step 0 1, .step 1 1,
    .step 0 1, .step 0 1, .step 0 1, .step 0 1, .step 1 1, .step 1 1, .step 1 1, .step 1 1]

/-- A transfer to an account that is not there is left after its debit. -/
def transferNowhere : List Event :=
  [.request (.transfer "consumer" "nobody" 10 ""), .step 0 1, .step 0 1, .step 0 1, .step 0 1]

/-- A settlement rolls the `UPDATE` of a deposit back. -/
def depositUndone : List Event :=
  [.request (.deposit "consumer" 10), .request (.settleLease rentedLease), .step 0 1, .step 0 1,
    .step 1 1, .step 1 1, .step 0 1, .step 0 1, .step 0 1]

/-- A withdrawal between the settlement's `SELECT` and its debit. -/
def overdraft : List Event :=
  [.request (.settleLease rentedLease), .request (.withdraw "consumer" 90), .step 0 1, .step 0 1,
    .step 1 1, .step 1 1, .step 1 1, .step 1 1, .step 1 1, .step 0 1, .step 0 1, .step 0 1,
    .step 0 1, .step 0 1, .step 0 1, .step 0 1, .step 0 1, .step 0 1]

theorem money_not_conserved :
    (∀ es ∈ [lostDeposit, transferNowhere, depositUndone, overdraft],
      (es.foldl Bank.step (.start rentedDb)).Quiet) ∧
    ∀ es ∈ [lostDeposit, transferNowhere, depositUndone, overdraft],
      ¬ Conserved rentedDb (es.foldl Bank.step (.start rentedDb)) := by
  refine ⟨by decide +kernel, fun es hes h => ?_⟩
  have hbad : ∀ es ∈ [lostDeposit, transferNowhere, depositUndone, overdraft],
      (es.foldl Bank.step (.start rentedDb)).db.total ≠ rentedDb.total +
          (es.foldl Bank.step (.start rentedDb)).deposited -
          (es.foldl Bank.step (.start rentedDb)).withdrawn ∨
        (es.foldl Bank.step (.start rentedDb)).db.balance "consumer" < 0 := by
    decide +kernel
  rcases hbad es hes with htotal | hnonneg
  · exact htotal h.total
  · exact absurd hnonneg (not_lt.2 (h.nonneg "consumer"))

end TreeMiner.Server
