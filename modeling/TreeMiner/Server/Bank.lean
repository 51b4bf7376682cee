import TreeMiner.Lib.Run
import TreeMiner.Server.Store

/-! The coroutines that move money and write beside each other. Each is cut at its awaits:
one step is one statement on the shared connection. -/

namespace TreeMiner.Server

open Lib

/-- How a step leaves its coroutine: with more to do, returned or raised. -/
inductive Turn (κ ρ : Type)
  | live (call : κ)
  | returned (result : ρ)
  | raised

def Turn.map {κ κ' ρ ρ' : Type} (f : κ → κ') (g : ρ → ρ') : Turn κ ρ → Turn κ' ρ'
  | .live call => .live (f call)
  | .returned result => .returned (g result)
  | .raised => .raised

/-! ## `SettlementEngine.settle_lease` -/

def PROVIDER_SHARE : ℚ := 95 / 100

def PLATFORM_SHARE : ℚ := 5 / 100

def PLATFORM_ACCOUNT_ID : String := "platform-treasury"

def RATE_PER_SECOND : ℚ := 1 / 100

/-- The `dict` of a lease, as far as a settlement reads it. -/
structure LeaseInfo where
  leaseId : String
  workerId : String
  consumerId : String
  elapsedSec : ℚ
  pricePerSec : Option ℚ
  blocksFound : Nat
deriving DecidableEq

inductive SettlePc
  | begin
  | select
  /-- the statements in front of the commit; none left is the commit -/
  | exec (todo : List Write)
  /-- `ROLLBACK` for a consumer that is not there -/
  | noAccount
  /-- the `ROLLBACK` of the handler -/
  | failed
  | record
  | recordCommit
deriving DecidableEq

structure SettleCall where
  lease : LeaseInfo
  totalCost : ℚ
  pc : SettlePc
deriving DecidableEq

def settleLease (lease : LeaseInfo) : SettleCall where
  lease := lease
  totalCost := lease.elapsedSec * lease.pricePerSec.getD RATE_PER_SECOND
  pc := .begin

/-- What a consumer with this balance is charged. -/
def charge (totalCost balance : ℚ) : ℚ := if balance < totalCost then max balance 0 else totalCost

def statements (lease : LeaseInfo) (totalCost : ℚ) : List Write :=
  let providerPayment := totalCost * PROVIDER_SHARE
  let platformFee := totalCost * PLATFORM_SHARE
  [.addBalance lease.consumerId (-totalCost), .addBalance lease.workerId providerPayment,
    .addBalance PLATFORM_ACCOUNT_ID platformFee,
    .insertTransaction ⟨lease.consumerId, .leaseCharge, totalCost, lease.leaseId⟩,
    .insertTransaction ⟨lease.workerId, .providerPayout, providerPayment, lease.leaseId⟩,
    .insertTransaction ⟨PLATFORM_ACCOUNT_ID, .platformFee, platformFee, lease.leaseId⟩]

namespace SettleCall

def settlement (c : SettleCall) : Settlement where
  consumerId := c.lease.consumerId
  workerId := c.lease.workerId
  durationSec := c.lease.elapsedSec
  blocksFound := c.lease.blocksFound
  totalCost := c.totalCost
  providerPayout := c.totalCost * PROVIDER_SHARE
  platformFee := c.totalCost * PLATFORM_SHARE

def step (who : Nat) (c : SettleCall) (s : Store) : Turn SettleCall (Option Settlement) × Store :=
  match c.pc with
  | .begin =>
    match s.beginImmediate with
    | some s => (.live { c with pc := .select }, s)
    | none => (.live { c with pc := .failed }, s)
  | .select =>
    match s.db.accounts.get c.lease.consumerId with
    | none => (.live { c with pc := .noAccount }, s)
    | some balance =>
      let totalCost := charge c.totalCost balance
      (.live { c with totalCost, pc := .exec (statements c.lease totalCost) }, s)
  | .exec (w :: todo) =>
    match s.execute who w with
    | (s, true) => (.live { c with pc := .exec todo }, s)
    | (s, false) => (.live { c with pc := .failed }, s)
  | .exec [] => (.live { c with pc := .record }, s.commit)
  | .noAccount =>
    match s.rollback who with
    | some s => (.returned none, s)
    | none => (.live { c with pc := .failed }, s)
  | .failed => (.returned none, (s.rollback who).getD s)
  | .record =>
    match s.execute who (.insertSettlement c.lease.leaseId c.settlement) with
    | (s, true) => (.live { c with pc := .recordCommit }, s)
    | (s, false) => (.raised, s)
  | .recordCommit => (.returned (some c.settlement), s.commit)

end SettleCall

/-! ## `AccountRepo.deposit` and `withdraw` -/

inductive BalancePc
  | get
  /-- `update_balance` -/
  | update (newBalance : ℚ)
  | updateCommit
  /-- `_record_tx` -/
  | insert
  | insertCommit
deriving DecidableEq

inductive Direction
  | deposit
  | withdraw
deriving DecidableEq, Repr

def Direction.type : Direction → TransactionType
  | .deposit => .deposit
  | .withdraw => .withdraw

/-- The amount as it changes the balance. -/
def Direction.signed : Direction → ℚ → ℚ
  | .deposit, amount => amount
  | .withdraw, amount => -amount

structure BalanceCall where
  direction : Direction
  accountId : String
  amount : ℚ
  pc : BalancePc
deriving DecidableEq

namespace BalanceCall

def newBalance (c : BalanceCall) (balance : ℚ) : ℚ := balance + c.direction.signed c.amount

def transaction (c : BalanceCall) : Transaction := ⟨c.accountId, c.direction.type, c.amount, ""⟩

def step (who : Nat) (c : BalanceCall) (s : Store) : Turn BalanceCall Unit × Store :=
  match c.pc with
  | .get =>
    if c.amount ≤ 0 then (.raised, s)
    else
      match s.db.accounts.get c.accountId with
      | none => (.raised, s)
      | some balance =>
        if c.direction = .withdraw ∧ balance < c.amount then (.raised, s)
        else (.live { c with pc := .update (c.newBalance balance) }, s)
  | .update newBalance =>
    match s.execute who (.setBalance c.accountId newBalance) with
    | (s, true) => (.live { c with pc := .updateCommit }, s)
    | (s, false) => (.raised, s)
  | .updateCommit => (.live { c with pc := .insert }, s.commit)
  | .insert =>
    match s.execute who (.insertTransaction c.transaction) with
    | (s, true) => (.live { c with pc := .insertCommit }, s)
    | (s, false) => (.raised, s)
  | .insertCommit => (.returned (), s.commit)

end BalanceCall

/-! ## `AccountRepo.transfer` -/

inductive TransferPc
  | debit
  | exec (todo : List Write)
deriving DecidableEq

structure TransferCall where
  fromId : String
  toId : String
  amount : ℚ
  ref : String
  pc : TransferPc
deriving DecidableEq

namespace TransferCall

/-- What follows the debit. -/
def credit (c : TransferCall) : List Write :=
  [.addBalance c.toId c.amount, .insertTransaction ⟨c.fromId, .transferOut, c.amount, c.ref⟩,
    .insertTransaction ⟨c.toId, .transferIn, c.amount, c.ref⟩]

/-- The row the debit's `WHERE` finds. -/
def covered (c : TransferCall) (d : Db) : Bool :=
  (d.accounts.get c.fromId).any fun balance => decide (c.amount ≤ balance)

def step (who : Nat) (c : TransferCall) (s : Store) : Turn TransferCall Unit × Store :=
  match c.pc with
  | .debit =>
    if c.amount ≤ 0 then (.raised, s)
    else if c.covered s.db then
      (.live { c with pc := .exec c.credit }, s.write who (.addBalance c.fromId (-c.amount)))
    else (.raised, s.enter)
  | .exec (w :: todo) =>
    match s.execute who w with
    | (s, true) => (.live { c with pc := .exec todo }, s)
    | (s, false) => (.raised, s)
  | .exec [] => (.returned (), s.commit)

end TransferCall

/-! ## The other repository operations -/

/-- Statements and a `commit`, most often one statement; a heartbeat reads its worker first. -/
inductive RepoCall
  | heartbeat (workerId : String) (hashrate : ℚ) (activeGpus : Int)
  | exec (todo : List Write)
deriving DecidableEq

namespace RepoCall

/-- The time online since the last heartbeat, a minute at most. -/
def onlineDelta (now : ℚ) (lastOnlineAt : Option ℚ) : ℚ :=
  match lastOnlineAt with
  | some last => max (min (now - last) 60) 0
  | none => 0

def step (who : Nat) (now : ℚ) (c : RepoCall) (s : Store) : Turn RepoCall Unit × Store :=
  match c with
  | .heartbeat workerId hashrate activeGpus =>
    let last := (s.db.workers.get workerId).bind Worker.lastOnlineAt
    (.live (.exec [.setHeartbeat workerId hashrate activeGpus now (onlineDelta now last)]), s)
  | .exec (w :: todo) =>
    match s.execute who w with
    | (s, true) => (.live (.exec todo), s)
    | (s, false) => (.raised, s)
  | .exec [] => (.returned (), s.commit)

end RepoCall

/-! ## Requests and the scheduler -/

/-- What can be called, by the methods' names. -/
inductive Request
  | deposit (accountId : String) (amount : ℚ)
  | withdraw (accountId : String) (amount : ℚ)
  | transfer (fromId toId : String) (amount : ℚ) (ref : String)
  | settleLease (lease : LeaseInfo)
  | create (accountId : String) (balance : ℚ)
  | updateBalance (accountId : String) (newBalance : ℚ)
  | updateHeartbeat (workerId : String) (hashrate : ℚ) (activeGpus : Int)
  | updateWorkerState (workerId state : String)
  | updatePricing (workerId : String) (pricePerMin : ℚ) (minDurationSec maxDurationSec : Int)
  | incrementSelfBlocks (workerId : String)
  | updateLeaseState (leaseId : String) (state : LeaseState) (endedAt : Option ℚ)
  | incrementBlocks (leaseId : String)
  | updateHashrateStats (leaseId : String) (hashrate : ℚ)
  | createLease (leaseId : String) (l : Lease)
  | upsert (workerId state : String) (now : ℚ)
  | record (t : Transaction)
  /-- the repositories of blocks, snapshots and API keys -/
  | elsewhere (raises : List Bool)

inductive Call
  | balance (c : BalanceCall)
  | transfer (c : TransferCall)
  | settle (c : SettleCall)
  | repo (c : RepoCall)
deriving DecidableEq

def Request.call : Request → Call
  | .deposit accountId amount => .balance ⟨.deposit, accountId, amount, .get⟩
  | .withdraw accountId amount => .balance ⟨.withdraw, accountId, amount, .get⟩
  | .transfer fromId toId amount ref => .transfer ⟨fromId, toId, amount, ref, .debit⟩
  | .settleLease lease => .settle (Server.settleLease lease)
  | .create accountId balance => .repo (.exec [.createAccount accountId balance])
  | .updateBalance accountId newBalance => .repo (.exec [.setBalance accountId newBalance])
  | .updateHeartbeat workerId hashrate activeGpus =>
    .repo (.heartbeat workerId hashrate activeGpus)
  | .updateWorkerState workerId state => .repo (.exec [.setWorkerState workerId state])
  | .updatePricing workerId pricePerMin minDurationSec maxDurationSec =>
    .repo (.exec [.setPricing workerId pricePerMin minDurationSec maxDurationSec])
  | .incrementSelfBlocks workerId => .repo (.exec [.incrementSelfBlocks workerId])
  | .updateLeaseState leaseId state endedAt =>
    .repo (.exec [.setLeaseState leaseId state endedAt])
  | .incrementBlocks leaseId => .repo (.exec [.incrementBlocks leaseId])
  | .updateHashrateStats leaseId hashrate => .repo (.exec [.addHashrate leaseId hashrate])
  | .createLease leaseId l => .repo (.exec [.createLease leaseId l])
  | .upsert workerId state now => .repo (.exec [.upsertWorker workerId state now])
  | .record t => .repo (.exec [.insertTransaction t])
  | .elsewhere raises => .repo (.exec (raises.map .elsewhere))

def Call.step (who : Nat) (now : ℚ) (c : Call) (s : Store) : Turn Call Unit × Store :=
  match c with
  | .balance c => ((c.step who s).1.map .balance id, (c.step who s).2)
  | .transfer c => ((c.step who s).1.map .transfer id, (c.step who s).2)
  | .settle c => ((c.step who s).1.map .settle fun _ => (), (c.step who s).2)
  | .repo c => ((c.step who now s).1.map .repo id, (c.step who now s).2)

/-- The coroutines by the order of their calls, `none` once one has ended, and the amounts
of the deposits and withdrawals that have returned. -/
structure Bank where
  store : Store
  calls : List (Option Call)
  deposited : ℚ
  withdrawn : ℚ

inductive Event
  | request (r : Request)
  /-- one coroutine runs to its next await, at a time -/
  | step (who : Nat) (now : ℚ)

namespace Bank

def start (base : Db) : Bank := ⟨.start base, [], 0, 0⟩

def db (b : Bank) : Db := b.store.db

/-- The coroutine still in flight under a number. -/
def call? (b : Bank) (who : Nat) : Option Call := b.calls[who]?.join

/-- The books of a call that has returned. -/
def book (b : Bank) : Call → Bank
  | .balance ⟨.deposit, _, amount, _⟩ => { b with deposited := b.deposited + amount }
  | .balance ⟨.withdraw, _, amount, _⟩ => { b with withdrawn := b.withdrawn + amount }
  | _ => b

def step (b : Bank) : Event → Bank
  | .request r => { b with calls := b.calls ++ [some r.call] }
  | .step who now =>
    match b.call? who with
    | none => b
    | some c =>
      match c.step who now b.store with
      | (.live c', store) => { b with store, calls := b.calls.set who (some c') }
      | (.returned _, store) => { b with store, calls := b.calls.set who none }.book c
      | (.raised, store) => { b with store, calls := b.calls.set who none }

/-- No call is in flight. -/
def Quiet (b : Bank) : Prop := ∀ c ∈ b.calls, c = none

instance (b : Bank) : Decidable b.Quiet := inferInstanceAs (Decidable (∀ c ∈ b.calls, c = none))

end Bank

end TreeMiner.Server
