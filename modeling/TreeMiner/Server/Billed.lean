import Mathlib.Tactic.Linarith
import TreeMiner.Server.Billing

/-! Leases that are closed in time are billed what their contracts say at most. The rows of a
lease, of its settlement and of its charge are traced back to the contract and to the reading
they came from. -/

namespace TreeMiner.Server

open Lib

/-! ## What the book says for good -/

/-- Contracts and readings stay and the clock does not go back. -/
structure ContractBook.Grows (k k' : ContractBook) : Prop where
  clock : k.clock ≤ k'.clock
  contracts : ∀ leaseId c, k.contracts.get leaseId = some c → k'.contracts.get leaseId = some c
  readings : ∀ x ∈ k.readings, x ∈ k'.readings

/-- A lease's row has the terms of its contract, and an end that is set is in time. -/
structure ContractBook.Agrees (k : ContractBook) (leaseId : String) (l : Lease) (c : Contract) :
    Prop where
  contract : k.contracts.get leaseId = some c
  createdAt : l.createdAt = c.createdAt
  durationSec : l.durationSec = c.durationSec
  pricePerSec : l.pricePerSec = c.pricePerSec
  begun : c.createdAt ≤ k.clock
  ended : ∀ t ∈ l.ended?, l.createdAt ≤ t ∧ l.InTime t

/-- The rows of the tables agree with the book. -/
structure Lawful (k : ContractBook) (d : Db) : Prop where
  leases : ∀ leaseId l, d.leases.get leaseId = some l → ∃ c, k.Agrees leaseId l c
  settlements : ∀ leaseId s, d.settlements.get leaseId = some s →
    s.providerPayout + s.platformFee = s.totalCost ∧ k.Charged leaseId s.totalCost
  transactions : ∀ t ∈ d.transactions, t.type = .leaseCharge → k.Charged t.referenceId t.amount

/-- A statement that leaves the rows in agreement. -/
def ContractBook.Allows (k : ContractBook) (d : Db) : Write → Prop
  | .setLeaseState leaseId _ (some t) =>
    ∀ l, d.leases.get leaseId = some l → l.createdAt ≤ t ∧ l.InTime t
  | .insertSettlement leaseId s =>
    s.providerPayout + s.platformFee = s.totalCost ∧ k.Charged leaseId s.totalCost
  | .insertTransaction t => t.type = .leaseCharge → k.Charged t.referenceId t.amount
  | .createLease leaseId l => ∃ c, k.Agrees leaseId l c
  | _ => True

namespace ContractBook

variable {k k' : ContractBook}

theorem Grows.refl (k : ContractBook) : k.Grows k := ⟨le_refl _, fun _ _ h => h, fun _ h => h⟩

theorem grows_read (k : ContractBook) (x : Option Reading) : k.Grows (k.read x) :=
  ⟨le_refl _, fun _ _ h => h, fun _ h => List.mem_append_left _ h⟩

@[simp] theorem read_none (k : ContractBook) : k.read none = k := by
  unfold read
  rw [Option.toList_none, List.append_nil]

theorem charged_read (k : ContractBook) (x : Reading) :
    (k.read (some x)).Charged x.leaseId x.charge :=
  ⟨x, List.mem_append_right _ (List.mem_singleton_self x), rfl, rfl⟩

theorem Covers.mono {leaseId : String} {cost : ℚ} (h : k.Covers leaseId cost) (hg : k.Grows k') :
    k'.Covers leaseId cost := by
  obtain ⟨c, hget, hcost⟩ := h
  exact ⟨c, hg.contracts leaseId c hget, hcost⟩

theorem Charged.mono {leaseId : String} {cost : ℚ} (h : k.Charged leaseId cost) (hg : k.Grows k') :
    k'.Charged leaseId cost := by
  obtain ⟨x, hx, heq⟩ := h
  exact ⟨x, hg.readings x hx, heq⟩

theorem Agrees.mono {leaseId : String} {l : Lease} {c : Contract} (h : k.Agrees leaseId l c)
    (hg : k.Grows k') : k'.Agrees leaseId l c :=
  ⟨hg.contracts leaseId c h.contract, h.createdAt, h.durationSec, h.pricePerSec,
    h.begun.trans hg.clock, h.ended⟩

theorem allows_of_not_bills {d : Db} {w : Write} (h : w.bills = false) : k.Allows d w := by
  cases w with
  | insertTransaction t =>
    intro htype
    simp [Write.bills, htype] at h
  | setLeaseState leaseId state endedAt => cases h
  | insertSettlement leaseId s => cases h
  | createLease leaseId l => cases h
  | _ => trivial

/-- Of a settlement's statements only the row of the charge has to be in the book. -/
theorem allows_statements {d : Db} {lease : LeaseInfo} {cost : ℚ} {w : Write}
    (hcharged : k.Charged lease.leaseId cost) (hw : w ∈ statements lease cost) : k.Allows d w := by
  simp only [statements, List.mem_cons, List.not_mem_nil, or_false] at hw
  rcases hw with rfl | rfl | rfl | rfl | rfl | rfl
  · trivial
  · trivial
  · trivial
  · exact fun _ => hcharged
  · exact fun htype => by cases htype
  · exact fun htype => by cases htype

/-- A row whose terms and end are left as they were. -/
theorem Agrees.of_same {leaseId : String} {l l' : Lease} {c : Contract}
    (h : k.Agrees leaseId l c) (hcreated : l'.createdAt = l.createdAt)
    (hduration : l'.durationSec = l.durationSec) (hprice : l'.pricePerSec = l.pricePerSec)
    (hended : ∀ t ∈ l'.ended?, l.createdAt ≤ t ∧ l.InTime t) : k.Agrees leaseId l' c where
  contract := h.contract
  createdAt := hcreated.trans h.createdAt
  durationSec := hduration.trans h.durationSec
  pricePerSec := hprice.trans h.pricePerSec
  begun := h.begun
  ended t ht := by
    obtain ⟨hbegun, hin⟩ := hended t ht
    refine ⟨hcreated ▸ hbegun, ?_⟩
    unfold Lease.InTime
    rw [hprice, hcreated, hduration]
    exact hin

end ContractBook

namespace Lawful

variable {k k' : ContractBook} {d : Db}

theorem mono (h : Lawful k d) (hg : k.Grows k') : Lawful k' d where
  leases leaseId l hget := by
    obtain ⟨c, hc⟩ := h.leases leaseId l hget
    exact ⟨c, hc.mono hg⟩
  settlements leaseId s hget :=
    ⟨(h.settlements leaseId s hget).1, (h.settlements leaseId s hget).2.mono hg⟩
  transactions t ht htype := (h.transactions t ht htype).mono hg

/-- A change of one lease's row. -/
theorem modify (h : Lawful k d) (leaseId : String) (f : Lease → Lease)
    (hf : ∀ l c, d.leases.get leaseId = some l → k.Agrees leaseId l c → k.Agrees leaseId (f l) c) :
    Lawful k { d with leases := d.leases.modify leaseId f } where
  leases leaseId' l' hget := by
    have hget' : (d.leases.modify leaseId f).get leaseId' = some l' := hget
    rw [Table.get_modify] at hget'
    split_ifs at hget' with heq
    · subst heq
      obtain ⟨l, hl, rfl⟩ := Option.map_eq_some_iff.1 hget'
      obtain ⟨c, hc⟩ := h.leases leaseId' l hl
      exact ⟨c, hf l c hl hc⟩
    · exact h.leases leaseId' l' hget'
  settlements := h.settlements
  transactions := h.transactions

/-- The step lemma of the tables: one statement that the book allows. -/
theorem apply (h : Lawful k d) {w : Write} (hw : k.Allows d w) : Lawful k (d.apply w) := by
  cases w with
  | insertTransaction t =>
    refine ⟨h.leases, h.settlements, fun t' ht' htype => ?_⟩
    rcases List.mem_append.1 ht' with ht' | ht'
    · exact h.transactions t' ht' htype
    · obtain rfl := List.mem_singleton.1 ht'
      exact hw htype
  | setLeaseState leaseId state endedAt =>
    refine h.modify leaseId _ fun l c hget hagrees =>
      hagrees.of_same rfl rfl rfl fun t ht => ?_
    cases endedAt with
    | none => exact hagrees.ended t ht
    | some ended =>
      obtain rfl : ended = t := by
        simp only [Lease.ended?, Option.orElse_some, Option.mem_def, Option.filter_eq_some_iff,
          Option.some.injEq] at ht
        exact ht.1
      exact hw l hget
  | incrementBlocks leaseId =>
    exact h.modify leaseId _ fun l c _ hagrees => hagrees.of_same rfl rfl rfl hagrees.ended
  | addHashrate leaseId hashrate =>
    exact h.modify leaseId _ fun l c _ hagrees => hagrees.of_same rfl rfl rfl hagrees.ended
  | insertSettlement leaseId s =>
    refine ⟨h.leases, fun leaseId' s' hget => ?_, h.transactions⟩
    have hget' : (d.settlements.insert leaseId s).get leaseId' = some s' := hget
    rw [Table.get_insert] at hget'
    split_ifs at hget' with hnew
    · cases hget'
      exact hnew.1 ▸ hw
    · exact h.settlements leaseId' s' hget'
  | createLease leaseId l =>
    refine ⟨fun leaseId' l' hget => ?_, h.settlements, h.transactions⟩
    have hget' : (d.leases.insert leaseId l).get leaseId' = some l' := hget
    rw [Table.get_insert] at hget'
    split_ifs at hget' with hnew
    · cases hget'
      exact hnew.1 ▸ hw
    · exact h.leases leaseId' l' hget'
  | upsertWorker workerId state now =>
    simp only [Db.apply]
    split_ifs
    · exact ⟨h.leases, h.settlements, h.transactions⟩
    · exact ⟨h.leases, h.settlements, h.transactions⟩
  | _ => exact ⟨h.leases, h.settlements, h.transactions⟩

end Lawful

/-! ## The connection -/

/-- Lawful as it is read and as a `ROLLBACK` would leave it. -/
structure Sound (k : ContractBook) (s : Store) : Prop where
  committed : Lawful k s.reopen.db
  read : Lawful k s.db

namespace Sound

variable {k k' : ContractBook} {s : Store}

theorem mono (h : Sound k s) (hg : k.Grows k') : Sound k' s :=
  ⟨h.committed.mono hg, h.read.mono hg⟩

theorem reopen (h : Sound k s) : Sound k s.reopen := ⟨h.committed, h.committed⟩

theorem enter (h : Sound k s) : Sound k s.enter := ⟨h.committed, h.read⟩

theorem commit (h : Sound k s) : Sound k s.commit := by
  have hread : Lawful k s.commit.db := by
    rw [Store.db_commit]
    exact h.read
  exact ⟨hread, hread⟩

theorem write (h : Sound k s) (who : Nat) {w : Write} (hw : k.Allows s.db w) :
    Sound k (s.write who w) := by
  refine ⟨h.committed, ?_⟩
  rw [Store.db_write]
  exact h.read.apply hw

theorem execute (h : Sound k s) (who : Nat) {w : Write} (hw : k.Allows s.db w) :
    Sound k (s.execute who w).1 := by
  unfold Store.execute
  split_ifs
  · exact h.enter
  · exact h.write who hw

theorem begin (h : Sound k s) : ∀ s' ∈ s.beginImmediate, Sound k s' := by
  intro s' hs'
  simp only [Store.beginImmediate, Option.mem_def, Option.map_eq_some_iff] at hs'
  obtain ⟨conn, hbegin, rfl⟩ := hs'
  cases hopened : s.conn.opened with
  | some l =>
    unfold Connection.begin at hbegin
    rw [hopened] at hbegin
    cases hbegin
  | none =>
    rw [Connection.begin_of_none hopened] at hbegin
    cases hbegin
    exact ⟨h.committed, h.committed⟩

theorem rollback (h : Sound k s) (who : Nat) : ∀ s' ∈ s.rollback who, Sound k s' := by
  intro s' hs'
  simp only [Store.rollback, Option.mem_def, Option.map_eq_some_iff] at hs'
  obtain ⟨conn, hrollback, rfl⟩ := hs'
  cases hopened : s.conn.opened with
  | none =>
    unfold Connection.rollback at hrollback
    rw [hopened] at hrollback
    cases hrollback
  | some l =>
    rw [Connection.rollback_of_some hopened] at hrollback
    cases hrollback
    exact ⟨h.committed, h.committed⟩

end Sound

/-! ## Costs -/

theorem charge_bounds {cost : ℚ} (h : 0 ≤ cost) (balance : ℚ) :
    0 ≤ charge cost balance ∧ charge cost balance ≤ cost ∧
      (0 ≤ balance → charge cost balance ≤ balance) := by
  unfold charge
  split_ifs with hlt
  · refine ⟨le_max_right _ _, max_le hlt.le h, fun hbalance => ?_⟩
    rw [max_eq_left hbalance]
  · exact ⟨h, le_refl cost, fun _ => not_lt.1 hlt⟩

/-- The shares make up the whole. -/
theorem settlement_shares (c : SettleCall) :
    c.settlement.providerPayout + c.settlement.platformFee = c.settlement.totalCost := by
  change c.totalCost * PROVIDER_SHARE + c.totalCost * PLATFORM_SHARE = c.totalCost
  rw [← mul_add, show PROVIDER_SHARE + PLATFORM_SHARE = 1 by norm_num [PROVIDER_SHARE,
    PLATFORM_SHARE], mul_one]

/-- What a settlement of the lease will ask for is within the contract. -/
def ContractBook.Due (k : ContractBook) (lease : LeaseInfo) : Prop :=
  k.Covers lease.leaseId (settleLease lease).totalCost

/-- A lease that has ended in time, or is read in time, is billed its duration at most. -/
theorem ContractBook.Agrees.due {k : ContractBook} {leaseId : String} {l : Lease} {c : Contract}
    (h : k.Agrees leaseId l c) (hend : l.ended?.isSome ∨ l.InTime k.clock) :
    k.Due (leaseInfo leaseId l k.clock) := by
  have hbilled : l.createdAt ≤ l.ended?.getD k.clock ∧ l.InTime (l.ended?.getD k.clock) := by
    cases hended : l.ended? with
    | some t => exact h.ended t hended
    | none =>
      rw [hended] at hend
      refine ⟨?_, hend.resolve_left Bool.false_ne_true⟩
      rw [h.createdAt]
      exact h.begun
  obtain ⟨hlow, hin⟩ := hbilled
  have hprice : 0 ≤ l.pricePerSec := h.pricePerSec ▸ c.price_nonneg
  refine ⟨c, h.contract, ?_, ?_⟩
  · exact mul_nonneg (sub_nonneg.2 hlow) hprice
  · change (l.ended?.getD k.clock - l.createdAt) * l.pricePerSec ≤ c.durationSec * c.pricePerSec
    rw [← h.durationSec, ← h.pricePerSec]
    rcases hin with hzero | hle
    · rw [hzero, mul_zero, mul_zero]
    · exact mul_le_mul_of_nonneg_right (by linarith) hprice

/-! ## The coroutines -/

/-- A settlement that has not read the balance asks for what is covered; one that has charges
what it has read. -/
def SettleCall.Billed (k : ContractBook) (c : SettleCall) : Prop :=
  match c.pc with
  | .begin | .select => k.Covers c.lease.leaseId c.totalCost
  | .exec todo =>
    k.Charged c.lease.leaseId c.totalCost ∧ ∀ w ∈ todo, w ∈ statements c.lease c.totalCost
  | .record | .recordCommit => k.Charged c.lease.leaseId c.totalCost
  | .noAccount | .failed => True

/-- The leases that a coroutine is going to settle after what it does now. -/
def Task.pending : Task → List (Option LeaseInfo)
  | .watch (.complete done _ _) | .watch (.completeCommit done _ _) | .watch (.free done _ _)
  | .watch (.freeCommit done _ _) | .watch (.publish done _ _) | .watch (.refetch done _ _) => done
  | .watch (.settle _ rest) => rest
  | _ => []

structure Task.Billed (k : ContractBook) (task : Task) : Prop where
  settling : ∀ c ∈ task.settling, c.Billed k
  pending : ∀ lease, some lease ∈ task.pending → k.Due lease

theorem SettleCall.Billed.mono {k k' : ContractBook} {c : SettleCall} (h : c.Billed k)
    (hg : k.Grows k') : c.Billed k' := by
  obtain ⟨lease, cost, pc⟩ := c
  cases pc with
  | begin => exact ContractBook.Covers.mono h hg
  | select => exact ContractBook.Covers.mono h hg
  | exec todo => exact ⟨h.1.mono hg, h.2⟩
  | record => exact ContractBook.Charged.mono h hg
  | recordCommit => exact ContractBook.Charged.mono h hg
  | noAccount => trivial
  | failed => trivial

theorem Task.Billed.mono {k k' : ContractBook} {task : Task} (h : task.Billed k) (hg : k.Grows k') :
    task.Billed k' :=
  ⟨fun c hc => (h.settling c hc).mono hg, fun lease hlease => (h.pending lease hlease).mono hg⟩

/-- A coroutine with nothing to settle. -/
theorem Task.billed_idle {k : ContractBook} {task : Task} (hsettling : task.settling = none)
    (hpending : task.pending = []) : task.Billed k where
  settling c hc := by
    rw [hsettling] at hc
    cases hc
  pending lease hlease := by
    rw [hpending] at hlease
    cases hlease

/-- A step that leaves what is to be settled. -/
theorem Task.Billed.pass {k : ContractBook} {task task' : Task} (h : task.Billed k)
    (hsettling : task'.settling = none) (hpending : task'.pending = task.pending) :
    task'.Billed k where
  settling c hc := by
    rw [hsettling] at hc
    cases hc
  pending lease hlease := by
    rw [hpending] at hlease
    exact h.pending lease hlease

/-- What a step leaves: the tables sound, and of its coroutine the rest. -/
structure Bills (k : ContractBook) (s : Store) (rest : Option Task) : Prop where
  sound : Sound k s
  billed : ∀ task ∈ rest, task.Billed k

theorem Bills.over {k : ContractBook} {s : Store} (h : Sound k s) : Bills k s none :=
  ⟨h, fun task htask => by cases htask⟩

theorem Bills.going {k : ContractBook} {s : Store} {task : Task} (h : Sound k s)
    (ht : task.Billed k) :
    Bills k s (some task) :=
  ⟨h, fun task' htask => by cases htask; exact ht⟩

/-- The step lemma of a settlement. -/
theorem settle_bills {k : ContractBook} {c : SettleCall} {s : Store} (who : Nat) (h : Sound k s)
    (hc : c.Billed k) : Sound (k.read (c.reading? s.db)) (c.step who s).2 ∧
      ∀ c' ∈ (c.step who s).1.rest, c'.Billed (k.read (c.reading? s.db)) := by
  have hgrown := h.mono (k.grows_read (c.reading? s.db))
  obtain ⟨lease, cost, pc⟩ := c
  cases pc with
  | begin =>
    simp only [SettleCall.step]
    cases hbegin : s.beginImmediate with
    | none => exact ⟨hgrown, fun c' hc' => by cases hc'; trivial⟩
    | some s' =>
      refine ⟨hgrown.begin s' hbegin, fun c' hc' => ?_⟩
      cases hc'
      exact ContractBook.Covers.mono hc (k.grows_read _)
  | select =>
    simp only [SettleCall.step, SettleCall.reading?] at hgrown ⊢
    cases hbalance : s.db.accounts.get lease.consumerId with
    | none =>
      rw [hbalance] at hgrown
      exact ⟨hgrown, fun c' hc' => by cases hc'; trivial⟩
    | some balance =>
      rw [hbalance] at hgrown
      refine ⟨hgrown, fun c' hc' => ?_⟩
      cases hc'
      exact ⟨k.charged_read ⟨lease.leaseId, balance, charge cost balance⟩, fun w hw => hw⟩
  | exec todo =>
    obtain ⟨hcharged, htodo⟩ := hc
    have hcharged' := hcharged.mono (k.grows_read (SettleCall.reading? s.db
      ⟨lease, cost, .exec todo⟩))
    cases todo with
    | nil => exact ⟨hgrown.commit, fun c' hc' => by cases hc'; exact hcharged'⟩
    | cons w todo =>
      have hexec := hgrown.execute who
        (ContractBook.allows_statements hcharged' (htodo w List.mem_cons_self))
      simp only [SettleCall.step]
      rcases hstep : s.execute who w with ⟨s', _ | _⟩
      · rw [hstep] at hexec
        exact ⟨hexec, fun c' hc' => by cases hc'; trivial⟩
      · rw [hstep] at hexec
        refine ⟨hexec, fun c' hc' => ?_⟩
        cases hc'
        exact ⟨hcharged', fun w' hw' => htodo w' (List.mem_cons_of_mem _ hw')⟩
  | noAccount =>
    simp only [SettleCall.step]
    cases hrollback : s.rollback who with
    | none => exact ⟨hgrown, fun c' hc' => by cases hc'; trivial⟩
    | some s' => exact ⟨hgrown.rollback who s' hrollback, fun c' hc' => by cases hc'⟩
  | failed =>
    simp only [SettleCall.step]
    cases hrollback : s.rollback who with
    | none => exact ⟨hgrown, fun c' hc' => by cases hc'⟩
    | some s' => exact ⟨hgrown.rollback who s' hrollback, fun c' hc' => by cases hc'⟩
  | record =>
    have hcharged := ContractBook.Charged.mono hc (k.grows_read (SettleCall.reading? s.db
      ⟨lease, cost, .record⟩))
    have hexec := @Sound.execute _ _ hgrown who (.insertSettlement lease.leaseId
      (SettleCall.settlement ⟨lease, cost, .record⟩)) ⟨settlement_shares _, hcharged⟩
    simp only [SettleCall.step]
    rcases hstep : s.execute who (.insertSettlement lease.leaseId
      (SettleCall.settlement ⟨lease, cost, .record⟩)) with ⟨s', _ | _⟩
    · rw [hstep] at hexec
      exact ⟨hexec, fun c' hc' => by cases hc'⟩
    · rw [hstep] at hexec
      exact ⟨hexec, fun c' hc' => by cases hc'; exact hcharged⟩
  | recordCommit => exact ⟨hgrown.commit, fun c' hc' => by cases hc'⟩

/-- The `UPDATE` that closes a lease in time. -/
theorem Sound.close {k : ContractBook} {s : Store} (h : Sound k s) (who : Nat) {leaseId : String}
    (hclose : ∀ l ∈ s.db.leases.get leaseId, l.InTime k.clock) (state : LeaseState) :
    Sound k (s.write who (.setLeaseState leaseId state (some k.clock))) := by
  refine h.write who fun l hget => ⟨?_, hclose l hget⟩
  obtain ⟨c, hc⟩ := h.read.leases leaseId l hget
  rw [hc.createdAt]
  exact hc.begun

/-- The row of a lease as it is read to settle it. -/
theorem Sound.due {k : ContractBook} {s : Store} (h : Sound k s) {leaseId : String} {l : Lease}
    (hget : s.db.leases.get leaseId = some l)
    (hend : ∀ l ∈ s.db.leases.get leaseId, l.ended?.isSome ∨ l.InTime k.clock) :
    k.Due (leaseInfo leaseId l k.clock) := by
  obtain ⟨c, hc⟩ := h.read.leases leaseId l hget
  exact hc.due (hend l hget)

/-- A handler's step outside its settlement. -/
theorem stop_bills {k : ContractBook} {c : StopCall} {s : Store} (who : Nat) (signing : Signing)
    (lock : Option Nat) (h : Sound k s) (hidle : (Task.stop c).settling = none)
    (hp : (Task.stop c).Punctual s.db k.clock) :
    Bills k (c.step who k.clock signing lock s).2.2
      ((c.step who k.clock signing lock s).1.rest.map .stop) := by
  obtain ⟨leaseId, caller, pc⟩ := c
  cases pc with
  | get =>
    simp only [StopCall.step]
    cases s.db.leases.get leaseId with
    | none => exact .over h
    | some l =>
      dsimp only
      split_ifs
      · exact .over h
      · exact .over h
      · exact .going h (Task.billed_idle rfl rfl)
  | acquire =>
    cases lock with
    | none => exact .going h (Task.billed_idle rfl rfl)
    | some j => exact .going h (Task.billed_idle rfl rfl)
  | check =>
    simp only [StopCall.step]
    cases s.db.leases.get leaseId with
    | none => exact .over h
    | some l =>
      dsimp only
      split_ifs
      · exact .over h
      · exact .going h (Task.billed_idle rfl rfl)
  | complete lease =>
    exact .going (h.close who (hp.closes leaseId rfl) .completed) (Task.billed_idle rfl rfl)
  | completeCommit lease => exact .going h.commit (Task.billed_idle rfl rfl)
  | free lease => exact .going (h.write who trivial) (Task.billed_idle rfl rfl)
  | freeCommit lease => exact .going h.commit (Task.billed_idle rfl rfl)
  | publish lease =>
    simp only [StopCall.step]
    cases publishTask lease.workerId signing with
    | error e => exact .over h
    | ok u => exact .going h (Task.billed_idle rfl rfl)
  | refetch =>
    have hend := hp.rereads leaseId rfl
    simp only [StopCall.step]
    cases hget : s.db.leases.get leaseId with
    | none => exact .over h
    | some l =>
      refine .going h ⟨fun c hc => ?_, fun lease hlease => by cases hlease⟩
      cases hc
      exact h.due hget hend
  | settle sc => cases hidle

theorem settleNext_billed {k : ContractBook} {rest : List (Option LeaseInfo)}
    (h : ∀ lease, some lease ∈ rest → k.Due lease) :
    (Task.watch (WatchCall.settleNext rest)).Billed k := by
  cases rest with
  | nil => exact Task.billed_idle rfl rfl
  | cons o rest =>
    cases o with
    | none => exact Task.billed_idle rfl rfl
    | some lease =>
      refine ⟨fun c hc => ?_, fun lease' hlease => h lease' (List.mem_cons_of_mem _ hlease)⟩
      cases hc
      exact h lease List.mem_cons_self

theorem completeNext_billed {k : ContractBook} {done : List (Option LeaseInfo)}
    (h : ∀ lease, some lease ∈ done → k.Due lease) (rest : List LeaseInfo) :
    (Task.watch (WatchCall.completeNext done rest)).Billed k := by
  cases rest with
  | nil => exact settleNext_billed h
  | cons lease rest =>
    refine ⟨fun c hc => ?_, h⟩
    cases hc

/-- A step of the watchdog outside its settlements. -/
theorem watch_bills {k : ContractBook} {c : WatchCall} {s : Store} (who : Nat) (signing : Signing)
    (h : Sound k s) (hidle : (Task.watch c).settling = none) (hc : (Task.watch c).Billed k)
    (hp : (Task.watch c).Punctual s.db k.clock) :
    Bills k (c.step who k.clock signing s).2 (some (.watch (c.step who k.clock signing s).1)) := by
  cases c with
  | asleep => exact .going h (Task.billed_idle rfl rfl)
  | fetch cursor found =>
    simp only [WatchCall.step]
    rcases cursor.fetchmany s.db with ⟨_ | ⟨leaseId, ids⟩, cursor'⟩
    · exact .going h (completeNext_billed (fun lease hlease => by cases hlease) found)
    · exact .going h (Task.billed_idle rfl rfl)
  | get cursor ids found =>
    cases ids with
    | nil => exact .going h (Task.billed_idle rfl rfl)
    | cons leaseId ids => cases ids <;> exact .going h (Task.billed_idle rfl rfl)
  | complete done lease rest =>
    exact .going (h.close who (hp.closes lease.leaseId rfl) .completed)
      (hc.pass rfl rfl)
  | completeCommit done lease rest =>
    exact .going h.commit (hc.pass rfl rfl)
  | free done lease rest =>
    exact .going (h.write who trivial) (hc.pass rfl rfl)
  | freeCommit done lease rest => exact .going h.commit (hc.pass rfl rfl)
  | publish done lease rest =>
    simp only [WatchCall.step]
    rcases publishTask lease.workerId signing with (_ | message) | u
    · exact .going h (hc.pass rfl rfl)
    · exact .going h (Task.billed_idle rfl rfl)
    · exact .going h (hc.pass rfl rfl)
  | refetch done lease rest =>
    refine .going h (completeNext_billed (fun lease' hlease => ?_) rest)
    rcases List.mem_append.1 hlease with hlease | hlease
    · exact hc.pending lease' hlease
    · obtain ⟨l, hget, rfl⟩ := Option.map_eq_some_iff.1 (List.mem_singleton.1 hlease).symm
      exact h.due hget (hp.rereads lease.leaseId rfl)
  | settle sc rest => cases hidle

/-! ## Runs -/

/-- The book behind a coroutine's step. -/
def ContractBook.after (k : ContractBook) (d : Db) (task : Task) : ContractBook :=
  k.read (task.settling.bind (SettleCall.reading? d))

/-- The step of a coroutine, as the scheduler takes it. -/
theorem task_bills {r : Rental} {k : ContractBook} {who : Nat} {task : Task} (signing : Signing)
    (htask : r.task? who = some task) (h : Sound k r.store) (hc : task.Billed k)
    (hp : task.Punctual r.store.db k.clock) :
    ∃ rest, (r.step (.step who k.clock signing)).tasks = r.tasks.set who rest ∧
      Bills (k.after r.store.db task) (r.step (.step who k.clock signing)).store rest := by
  have hidle : task.settling = none → k.after r.store.db task = k := by
    intro hnone
    unfold ContractBook.after
    rw [hnone]
    exact k.read_none
  cases task with
  | stop c =>
    simp only [Rental.step, htask]
    refine ⟨_, rfl, ?_⟩
    cases hsettling : (Task.stop c).settling with
    | none =>
      rw [hidle hsettling]
      exact stop_bills who signing r.lock h hsettling hp
    | some sc =>
      obtain ⟨leaseId, caller, pc⟩ := c
      cases pc with
      | settle sc' =>
        cases hsettling
        obtain ⟨hsound, hrest⟩ := settle_bills who h (hc.settling sc rfl)
        simp only [StopCall.step]
        rcases hstep : sc.step who r.store with ⟨c' | result | _, s'⟩
        · rw [hstep] at hsound hrest
          refine .going hsound ⟨fun c'' hc'' => ?_, fun lease hlease => by cases hlease⟩
          cases hc''
          exact hrest c' rfl
        · rw [hstep] at hsound
          exact .over hsound
        · rw [hstep] at hsound
          exact .over hsound
      | _ => cases hsettling
  | watch c =>
    simp only [Rental.step, htask]
    refine ⟨_, rfl, ?_⟩
    cases hsettling : (Task.watch c).settling with
    | none =>
      rw [hidle hsettling]
      exact watch_bills who signing h hsettling hc hp
    | some sc =>
      cases c with
      | settle sc' rest =>
        cases hsettling
        have hpending : ∀ lease, some lease ∈ rest →
            (k.after r.store.db (.watch (.settle sc rest))).Due lease :=
          fun lease hlease => (hc.pending lease hlease).mono (k.grows_read _)
        obtain ⟨hsound, hrest⟩ := settle_bills who h (hc.settling sc rfl)
        simp only [WatchCall.step]
        rcases hstep : sc.step who r.store with ⟨c' | result | _, s'⟩
        · rw [hstep] at hsound hrest
          refine .going hsound ⟨fun c'' hc'' => ?_, hpending⟩
          cases hc''
          exact hrest c' rfl
        · rw [hstep] at hsound
          exact .going hsound (settleNext_billed hpending)
        · rw [hstep] at hsound
          exact .going hsound (Task.billed_idle rfl rfl)
      | _ => cases hsettling

namespace Billing

/-- The invariant: the tables and the coroutines go by the book, and every reading is fair. -/
structure Kept (b : Billing) : Prop where
  sound : Sound b.book b.store
  billed : ∀ who task, b.rental.task? who = some task → task.Billed b.book
  readings : ∀ x ∈ b.book.readings, b.book.Covers x.leaseId x.charge ∧ x.charge ≤ x.balance

theorem Kept.fair {b : Billing} (h : b.Kept) : b.Fair :=
  ⟨h.readings, h.sound.read.settlements, h.sound.read.transactions⟩

theorem task?_asleep {r : Rental} (h : r.tasks = [some (.watch .asleep)]) {who : Nat} {task : Task}
    (hwho : r.task? who = some task) : task = .watch .asleep := by
  unfold Rental.task? at hwho
  rw [h] at hwho
  rcases who with _ | who
  · cases hwho
    rfl
  · cases hwho

theorem kept_start (accounts : Table String ℚ) (workers : Table String Worker) (clock : ℚ) :
    (start accounts workers clock).Kept := by
  have hlawful : Lawful (start accounts workers clock).book (start accounts workers clock).db := by
    refine ⟨fun leaseId l hget => ?_, fun leaseId s hget => ?_, fun t ht => ?_⟩
    · cases hget
    · cases hget
    · cases ht
  refine ⟨⟨hlawful, hlawful⟩, fun who task hwho => ?_, fun x hx => by cases hx⟩
  rw [task?_asleep rfl hwho]
  exact Task.billed_idle rfl rfl

/-- ContractBook that grow without a reading, and coroutines that are there or have nothing to
settle. -/
theorem Kept.grow {b b' : Billing} (h : b.Kept) (hg : b.book.Grows b'.book)
    (hreadings : b'.book.readings = b.book.readings) (hs : Sound b'.book b'.store)
    (ht : ∀ who task, b'.rental.task? who = some task →
      b.rental.task? who = some task ∨ task.Billed b'.book) : b'.Kept where
  sound := hs
  billed who task hwho := by
    rcases ht who task hwho with hold | hnew
    · exact (h.billed who task hold).mono hg
    · exact hnew
  readings x hx := by
    rw [hreadings] at hx
    exact ⟨(h.readings x hx).1.mono hg, (h.readings x hx).2⟩

theorem Kept.withStore {b : Billing} (h : b.Kept) {s : Store} (hs : Sound b.book s) :
    (b.withStore s).Kept :=
  h.grow (.refl _) rfl hs fun _ _ hwho => Or.inl hwho

theorem Kept.rent {b : Billing} (h : b.Kept) (who : Nat) (leaseId workerId consumerId : String)
    (durationSec : ℚ) (pricePerSec : ℚ≥0) :
    (b.step (.rent who leaseId workerId consumerId durationSec pricePerSec)).Kept := by
  simp only [step]
  split_ifs with hold
  · exact h
  · rw [Option.not_isSome_iff_eq_none] at hold
    have hgrows : b.book.Grows { b.book with
        contracts := b.book.contracts.insert leaseId
          ⟨b.book.clock, durationSec, pricePerSec, pricePerSec.2⟩ } := by
      refine ⟨le_refl _, fun leaseId' c hget => ?_, fun x hx => hx⟩
      rw [Table.get_insert, if_neg fun hnew => ?_]
      · exact hget
      · rw [hnew.1, hold] at hget
        cases hget
    refine h.grow hgrows rfl ((h.sound.mono hgrows).execute who ?_) fun _ _ hwho => Or.inl hwho
    refine ⟨⟨b.book.clock, durationSec, pricePerSec, pricePerSec.2⟩, ?_, rfl, rfl, rfl, le_refl _,
      fun t ht => by cases ht⟩
    rw [Table.get_insert, if_pos ⟨rfl, hold⟩]

/-- A reading of a balance that is not negative. -/
theorem Kept.after {b : Billing} (h : b.Kept) {task : Task} (hc : task.Billed b.book)
    (hp : task.Punctual b.db b.book.clock) :
    ∀ x ∈ (b.book.after b.db task).readings,
      (b.book.after b.db task).Covers x.leaseId x.charge ∧ x.charge ≤ x.balance := by
  intro x hx
  rcases List.mem_append.1 hx with hx | hx
  · exact ⟨(h.readings x hx).1.mono (b.book.grows_read _), (h.readings x hx).2⟩
  · obtain ⟨sc, hsc, hread⟩ := Option.bind_eq_some_iff.1 (Option.mem_toList.1 hx)
    obtain ⟨lease, cost, pc⟩ := sc
    unfold SettleCall.reading? at hread
    split_ifs at hread with hpc
    obtain ⟨balance, hbalance, rfl⟩ := Option.map_eq_some_iff.1 hread
    cases hpc
    obtain ⟨c, hget, hlow, hhigh⟩ := hc.settling _ hsc
    obtain ⟨hnonneg, hle, hcovered⟩ := charge_bounds hlow balance
    exact ⟨⟨c, hget, hnonneg, hle.trans hhigh⟩,
      hcovered (hp.balance _ hsc rfl balance hbalance)⟩

theorem Kept.stepTask {b : Billing} (h : b.Kept) (who : Nat) (signing : Signing)
    (hp : b.Punctual (.step who signing)) : (b.step (.step who signing)).Kept := by
  cases htask : b.rental.task? who with
  | none =>
    have hsame : b.step (.step who signing) = b := by
      simp only [step, reading?, Rental.step, htask, Option.bind_none, ContractBook.read_none]
    rw [hsame]
    exact h
  | some task =>
    have hc := h.billed who task htask
    obtain ⟨rest, htasks, hsound, hrest⟩ :=
      task_bills signing htask h.sound hc (hp task htask)
    have hbook : (b.step (.step who signing)).book = b.book.after b.db task := by
      simp only [step, reading?, htask, Option.bind_some, ContractBook.after]
    refine ⟨?_, fun j task' hj => ?_, ?_⟩
    · rw [hbook]
      exact hsound
    · rw [hbook]
      have hset := Rental.task?_set (lt_of_join htask) htasks j
      change (b.step (.step who signing)).rental.task? j = _ at hset
      rw [hset] at hj
      split_ifs at hj
      · exact hrest task' hj
      · exact (h.billed j task' hj).mono (b.book.grows_read _)
    · rw [hbook]
      exact h.after hc (hp task htask)

theorem Kept.step {b : Billing} (h : b.Kept) {ev : BillingEvent} (hp : b.Punctual ev) :
    (b.step ev).Kept := by
  cases ev with
  | wait sec =>
    have hgrows : b.book.Grows { b.book with clock := b.book.clock + sec } :=
      ⟨le_add_of_nonneg_right sec.2, fun _ _ hget => hget, fun _ hx => hx⟩
    exact h.grow hgrows rfl (h.sound.mono hgrows) fun _ _ hwho => Or.inl hwho
  | rent who leaseId workerId consumerId durationSec pricePerSec =>
    exact h.rent who leaseId workerId consumerId durationSec pricePerSec
  | stop leaseId caller =>
    refine h.grow (.refl _) rfl h.sound fun who task hwho => ?_
    rw [show (b.step (.stop leaseId caller)).rental = b.rental.step (.stop leaseId caller) from rfl,
      Rental.task?_stop] at hwho
    split_ifs at hwho
    · cases hwho
      exact Or.inr (Task.billed_idle rfl rfl)
    · exact Or.inl hwho
  | step who signing => exact h.stepTask who signing hp
  | other who w => exact h.withStore (h.sound.execute who (ContractBook.allows_of_not_bills w.2))
  | commit => exact h.withStore h.sound.commit
  | restart =>
    refine h.grow (.refl _) rfl h.sound.reopen fun who task hwho => Or.inr ?_
    rw [task?_asleep rfl hwho]
    exact Task.billed_idle rfl rfl

end Billing

/-- In every run in which leases are closed in time and stay closed, and in which no consumer's
balance is read negative, every charge is fair. -/
theorem charges_fair {accounts : Table String ℚ} {workers : Table String Worker} {clock : ℚ}
    {b : Billing} {ts : List (Trans Billing BillingEvent)}
    (hrun : Run (fun b ev b' => b' = b.step ev) (Billing.start accounts workers clock) ts b)
    (hpunctual : ∀ t ∈ ts, t.pre.Punctual t.ev) :
    ∀ b ∈ visited (Billing.start accounts workers clock) ts, b.Fair := by
  intro b hb
  refine ((hrun.inv_of (I := Billing.Kept) (C := fun t => t.pre.Punctual t.ev) ?_
    (Billing.kept_start accounts workers clock) hpunctual).1 b hb).fair
  intro t (ht : t.post = t.pre.step t.ev) hI hC
  rw [ht]
  exact hI.step hC

/-! ## In time and late -/

/-- A lease that the watchdog finds is never closed in time, unless it is free of charge. -/
theorem not_inTime_of_expired {d : Db} {cutoff now : ℚ} {position : Nat} {row : Nat × String}
    (hrow : row ∈ expiredFrom d cutoff position) (hnow : cutoff ≤ now) :
    ∃ l, d.leases.get row.2 = some l ∧ (l.pricePerSec ≠ 0 → ¬ l.InTime now) := by
  obtain ⟨⟨⟨leaseId, l⟩, n⟩, hmem, rfl⟩ := List.mem_map.1 hrow
  obtain ⟨hdrop, hexpired⟩ := List.mem_filter.1 hmem
  have hget : d.leases.get leaseId = some l :=
    Table.mem_rows_iff.1 (List.fst_mem_of_mem_zipIdx (List.mem_of_mem_drop hdrop))
  have hover : l.createdAt + l.durationSec < cutoff := (of_decide_eq_true hexpired).2
  refine ⟨l, hget, fun hprice hin => ?_⟩
  exact absurd (hin.resolve_left hprice) (not_le.2 (hover.trans_le hnow))

def rentedRig : Table String Worker :=
  ⟨[("rig", ⟨"AVAILABLE", 0, 0, 0, 0, none, 30, 60, 86400, 0⟩)], by decide⟩

def consumerAccounts : Table String ℚ :=
  ⟨[("consumer", 100), ("rig", 0), (PLATFORM_ACCOUNT_ID, 0)], by decide⟩

/-- A lease of a minute, at a price of 1 a second. -/
def rentMinute : List BillingEvent := [.rent 1 "lease" "rig" "consumer" 60 1, .commit]

def stepped (who n : Nat) : List BillingEvent := List.replicate n (.step who (.ok ()))

/-- Stopped after half of it. -/
def stoppedEarly : List BillingEvent :=
  rentMinute ++ [.wait 30, .stop "lease" ⟨false, "consumer"⟩] ++ stepped 1 24

theorem charges_fair_stoppedEarly :
    (stoppedEarly.foldl Billing.step (.start consumerAccounts rentedRig 1000)).Fair := by
  have hrun := Run.trace Billing.step (.start consumerAccounts rentedRig 1000) stoppedEarly
  refine charges_fair hrun ?_ _ hrun.mem_visited
  decide +kernel

/-- The server is back 100 seconds after the `INSERT`, and the watchdog closes the lease. -/
def closedLate : List BillingEvent := rentMinute ++ [.restart, .wait 100] ++ stepped 0 24

theorem charges_not_fair :
    ¬ (closedLate.foldl Billing.step (.start consumerAccounts rentedRig 1000)).Fair := by
  intro h
  have hreading : ⟨"lease", 100, 100⟩ ∈
      (closedLate.foldl Billing.step (.start consumerAccounts rentedRig 1000)).book.readings := by
    decide +kernel
  have hdue : ((closedLate.foldl Billing.step
      (.start consumerAccounts rentedRig 1000)).book.contracts.get "lease").map Contract.due =
        some 60 := by
    decide +kernel
  obtain ⟨⟨c, hget, -, hle⟩, -⟩ := h.readings _ hreading
  rw [hget] at hdue
  rw [Option.some.inj hdue] at hle
  norm_num at hle

end TreeMiner.Server
