import Mathlib.Data.NNRat.Defs
import TreeMiner.Server.Settled

/-! What a consumer is billed. A lease is for a duration, but it is billed until the server
closed it, which the watchdog does on a pass after the duration is over. -/

namespace TreeMiner.Server

open Lib

/-! ## Contracts and readings -/

/-- The terms a lease was made under. -/
structure Contract where
  createdAt : ℚ
  durationSec : ℚ
  pricePerSec : ℚ
  price_nonneg : 0 ≤ pricePerSec

/-- The price of the whole duration. -/
def Contract.due (c : Contract) : ℚ := c.durationSec * c.pricePerSec

/-- What a settlement read of its consumer's balance, and what it charges for it. -/
structure Reading where
  leaseId : String
  balance : ℚ
  charge : ℚ
deriving DecidableEq

/-- Kept beside the server: its clock, every contract and every reading so far. -/
structure ContractBook where
  clock : ℚ
  contracts : Table String Contract
  readings : List Reading

namespace ContractBook

/-- At least nothing and at most what the contract says. -/
def Covers (k : ContractBook) (leaseId : String) (cost : ℚ) : Prop :=
  ∃ c, k.contracts.get leaseId = some c ∧ 0 ≤ cost ∧ cost ≤ c.due

def Charged (k : ContractBook) (leaseId : String) (cost : ℚ) : Prop :=
  ∃ x ∈ k.readings, x.leaseId = leaseId ∧ x.charge = cost

def read (k : ContractBook) (x : Option Reading) : ContractBook :=
  { k with readings := k.readings ++ x.toList }

end ContractBook

structure Billing where
  rental : Rental
  book : ContractBook

/-! ## Steps -/

/-- The statements that close leases and charge for them, which no other coroutine executes. -/
def Write.bills : Write → Bool
  | .setLeaseState .. | .insertSettlement .. | .createLease .. => true
  | .insertTransaction t => t.type = .leaseCharge
  | _ => false

inductive BillingEvent
  /-- time goes by, the server up or down -/
  | wait (sec : ℚ≥0)
  /-- the `INSERT` of a lease -/
  | rent (who : Nat) (leaseId workerId consumerId : String) (durationSec : ℚ)
    (pricePerSec : ℚ≥0)
  | stop (leaseId : String) (caller : Caller)
  | step (who : Nat) (signing : Signing)
  /-- a statement of another coroutine -/
  | other (who : Nat) (w : { w : Write // w.bills = false })
  /-- another coroutine's commit -/
  | commit
  /-- what is not committed is gone, and so are the coroutines -/
  | restart

/-- `LeaseRepo.create` -/
def newLease (workerId consumerId : String) (durationSec pricePerSec now : ℚ) : Lease where
  workerId := workerId
  consumerId := consumerId
  durationSec := durationSec
  pricePerSec := pricePerSec
  state := .active
  createdAt := now
  endedAt := none
  blocksFound := 0
  totalHashrateSamples := 0
  hashrateCount := 0

def SettleCall.reading? (d : Db) (c : SettleCall) : Option Reading :=
  if c.pc = .select then
    (d.accounts.get c.lease.consumerId).map fun balance =>
      ⟨c.lease.leaseId, balance, charge c.totalCost balance⟩
  else none

def Task.settling : Task → Option SettleCall
  | .stop ⟨_, _, .settle c⟩ => some c
  | .watch (.settle c _) => some c
  | _ => none

/-- A connection that was closed and opened again. -/
def Store.reopen (s : Store) : Store := { s with conn := { s.conn with opened := none } }

namespace Billing

/-- No lease yet. -/
def start (accounts : Table String ℚ) (workers : Table String Worker) (clock : ℚ) : Billing where
  rental := .start ⟨accounts, [], .empty, workers, .empty⟩
  book := ⟨clock, .empty, []⟩

def store (b : Billing) : Store := b.rental.store

def db (b : Billing) : Db := b.store.db

def withStore (b : Billing) (s : Store) : Billing :=
  { b with rental := { b.rental with store := s } }

/-- The reading of a coroutine's next step. -/
def reading? (b : Billing) (who : Nat) : Option Reading :=
  ((b.rental.task? who).bind Task.settling).bind (SettleCall.reading? b.db)

def step (b : Billing) : BillingEvent → Billing
  | .wait sec => { b with book := { b.book with clock := b.book.clock + sec } }
  | .rent who leaseId workerId consumerId durationSec pricePerSec =>
    -- the ids of leases are drawn anew
    if (b.book.contracts.get leaseId).isSome then b
    else
      { b.withStore (b.store.execute who (.createLease leaseId
          (newLease workerId consumerId durationSec pricePerSec b.book.clock))).1 with
        book := { b.book with
          contracts := b.book.contracts.insert leaseId
            ⟨b.book.clock, durationSec, pricePerSec, pricePerSec.2⟩ } }
  | .stop leaseId caller => { b with rental := b.rental.step (.stop leaseId caller) }
  | .step who signing =>
    { rental := b.rental.step (.step who b.book.clock signing)
      book := b.book.read (b.reading? who) }
  | .other who w => b.withStore (b.store.execute who w).1
  | .commit => b.withStore b.store.commit
  | .restart => { b with rental := ⟨b.store.reopen, none, [some (.watch .asleep)]⟩ }

/-- Every charge is covered by the contract and by the balance it was read from, and shared
out between the provider and the platform. -/
structure Fair (b : Billing) : Prop where
  readings : ∀ x ∈ b.book.readings, b.book.Covers x.leaseId x.charge ∧ x.charge ≤ x.balance
  settlements : ∀ leaseId s, b.db.settlements.get leaseId = some s →
    s.providerPayout + s.platformFee = s.totalCost ∧ b.book.Charged leaseId s.totalCost
  transactions : ∀ t ∈ b.db.transactions, t.type = .leaseCharge →
    b.book.Charged t.referenceId t.amount

end Billing

/-! ## Closing in time -/

/-- Closed at this time, the lease is billed for its duration at most. -/
def Lease.InTime (l : Lease) (t : ℚ) : Prop := l.pricePerSec = 0 ∨ t ≤ l.createdAt + l.durationSec

/-- `ended_at`, where it counts as one. -/
def Lease.ended? (l : Lease) : Option ℚ := l.endedAt.filter fun t => t ≠ 0

instance (l : Lease) (t : ℚ) : Decidable (l.InTime t) :=
  inferInstanceAs (Decidable (l.pricePerSec = 0 ∨ t ≤ l.createdAt + l.durationSec))

/-- The lease that the next step closes. -/
def Task.closes : Task → Option String
  | .stop ⟨leaseId, _, .complete _⟩ => some leaseId
  | .watch (.complete _ lease _) => some lease.leaseId
  | _ => none

/-- The lease that the next step reads to settle it. -/
def Task.rereads : Task → Option String
  | .stop ⟨leaseId, _, .refetch⟩ => some leaseId
  | .watch (.refetch _ lease _) => some lease.leaseId
  | _ => none

/-- A coroutine closes a lease in time and finds it closed when it settles it, and no
balance it reads is negative. -/
structure Task.Punctual (d : Db) (now : ℚ) (task : Task) : Prop where
  closes : ∀ leaseId ∈ task.closes, ∀ l ∈ d.leases.get leaseId, l.InTime now
  rereads : ∀ leaseId ∈ task.rereads, ∀ l ∈ d.leases.get leaseId, l.ended?.isSome ∨ l.InTime now
  balance : ∀ c ∈ task.settling, c.pc = .select →
    ∀ balance ∈ d.accounts.get c.lease.consumerId, 0 ≤ balance

instance (d : Db) (now : ℚ) (task : Task) : Decidable (task.Punctual d now) :=
  decidable_of_iff
    ((∀ leaseId ∈ task.closes, ∀ l ∈ d.leases.get leaseId, l.InTime now) ∧
      (∀ leaseId ∈ task.rereads, ∀ l ∈ d.leases.get leaseId, l.ended?.isSome ∨ l.InTime now) ∧
      ∀ c ∈ task.settling, c.pc = .select →
        ∀ balance ∈ d.accounts.get c.lease.consumerId, 0 ≤ balance)
    ⟨fun h => ⟨h.1, h.2.1, h.2.2⟩, fun h => ⟨h.1, h.2, h.3⟩⟩

def Billing.Punctual (b : Billing) : BillingEvent → Prop
  | .step who _ => ∀ task ∈ b.rental.task? who, task.Punctual b.db b.book.clock
  | _ => True

instance (b : Billing) (ev : BillingEvent) : Decidable (b.Punctual ev) := by
  cases ev with
  | step who signing =>
    exact inferInstanceAs
      (Decidable (∀ task ∈ b.rental.task? who, task.Punctual b.db b.book.clock))
  | _ => exact inferInstanceAs (Decidable True)

end TreeMiner.Server
