import Mathlib.Algebra.Order.Field.Rat
import TreeMiner.Lib.Connection
import TreeMiner.Lib.Table

/-! The server's database: the tables its repositories write and the one connection they
share. A column that is `REAL` is a rational here. -/

namespace TreeMiner.Server

open Lib

inductive TransactionType
  | deposit
  | withdraw
  | leaseCharge
  | providerPayout
  | platformFee
  | transferIn
  | transferOut
deriving DecidableEq, Repr

structure Transaction where
  accountId : String
  type : TransactionType
  amount : ℚ
  referenceId : String
deriving DecidableEq

inductive LeaseState
  | active
  | completed
  | cancelled
deriving DecidableEq, Repr

structure Lease where
  workerId : String
  consumerId : String
  durationSec : ℚ
  pricePerSec : ℚ
  state : LeaseState
  createdAt : ℚ
  endedAt : Option ℚ
  blocksFound : Nat
  totalHashrateSamples : ℚ
  hashrateCount : Nat
deriving DecidableEq

structure Worker where
  state : String
  hashrate : ℚ
  activeGpus : Int
  lastHeartbeat : ℚ
  totalOnlineSec : ℚ
  lastOnlineAt : Option ℚ
  pricePerMin : ℚ
  minDurationSec : Int
  maxDurationSec : Int
  selfBlocksFound : Nat
deriving DecidableEq

structure Settlement where
  consumerId : String
  workerId : String
  durationSec : ℚ
  blocksFound : Nat
  totalCost : ℚ
  providerPayout : ℚ
  platformFee : ℚ
deriving DecidableEq

/-- `accounts` by account id, with the balances; a lease has one settlement at most. -/
structure Db where
  accounts : Table String ℚ
  transactions : List Transaction
  leases : Table String Lease
  workers : Table String Worker
  settlements : Table String Settlement

/-! ## Statements -/

/-- The statements that write. -/
inductive Write
  /-- `INSERT OR IGNORE INTO accounts` -/
  | createAccount (accountId : String) (balance : ℚ)
  /-- `SET balance = ?` -/
  | setBalance (accountId : String) (balance : ℚ)
  /-- `SET balance = balance + ?` -/
  | addBalance (accountId : String) (amount : ℚ)
  | insertTransaction (t : Transaction)
  | setWorkerState (workerId state : String)
  | setHeartbeat (workerId : String) (hashrate : ℚ) (activeGpus : Int) (now delta : ℚ)
  | setPricing (workerId : String) (pricePerMin : ℚ) (minDurationSec maxDurationSec : Int)
  | incrementSelfBlocks (workerId : String)
  /-- `ended_at` is set only when it is given -/
  | setLeaseState (leaseId : String) (state : LeaseState) (endedAt : Option ℚ)
  | incrementBlocks (leaseId : String)
  | addHashrate (leaseId : String) (hashrate : ℚ)
  | insertSettlement (leaseId : String) (s : Settlement)
  | createLease (leaseId : String) (l : Lease)
  /-- `INSERT INTO workers`, `ON CONFLICT DO UPDATE` -/
  | upsertWorker (workerId state : String) (now : ℚ)
  /-- a statement on tables or columns that are not modelled; it may raise -/
  | elsewhere (raises : Bool)
deriving DecidableEq

/-- A worker's row as its first registration leaves it. -/
def newWorker (state : String) (now : ℚ) : Worker where
  state := state
  hashrate := 0
  activeGpus := 0
  lastHeartbeat := now
  totalOnlineSec := 0
  lastOnlineAt := some now
  pricePerMin := 3 / 5
  minDurationSec := 60
  maxDurationSec := 86400
  selfBlocksFound := 0

namespace Db

def apply (d : Db) : Write → Db
  | .createAccount accountId balance =>
    { d with accounts := d.accounts.insert accountId balance }
  | .setBalance accountId balance =>
    { d with accounts := d.accounts.modify accountId fun _ => balance }
  | .addBalance accountId amount =>
    { d with accounts := d.accounts.modify accountId (· + amount) }
  | .insertTransaction t => { d with transactions := d.transactions ++ [t] }
  | .setWorkerState workerId state =>
    { d with workers := d.workers.modify workerId fun w => { w with state } }
  | .setHeartbeat workerId hashrate activeGpus now delta =>
    { d with workers := d.workers.modify workerId fun w =>
        { w with hashrate, activeGpus, lastHeartbeat := now, lastOnlineAt := some now
                 totalOnlineSec := w.totalOnlineSec + delta } }
  | .setPricing workerId pricePerMin minDurationSec maxDurationSec =>
    { d with workers := d.workers.modify workerId fun w =>
        { w with pricePerMin, minDurationSec, maxDurationSec } }
  | .incrementSelfBlocks workerId =>
    { d with workers := d.workers.modify workerId fun w =>
        { w with selfBlocksFound := w.selfBlocksFound + 1 } }
  | .setLeaseState leaseId state endedAt =>
    { d with leases := d.leases.modify leaseId fun l =>
        { l with state, endedAt := endedAt.orElse fun _ => l.endedAt } }
  | .incrementBlocks leaseId =>
    { d with leases := d.leases.modify leaseId fun l =>
        { l with blocksFound := l.blocksFound + 1 } }
  | .addHashrate leaseId hashrate =>
    { d with leases := d.leases.modify leaseId fun l =>
        { l with totalHashrateSamples := l.totalHashrateSamples + hashrate
                 hashrateCount := l.hashrateCount + 1 } }
  | .insertSettlement leaseId s => { d with settlements := d.settlements.insert leaseId s }
  | .createLease leaseId l => { d with leases := d.leases.insert leaseId l }
  | .upsertWorker workerId state now =>
    if (d.workers.get workerId).isSome then
      { d with workers := d.workers.modify workerId fun w =>
          { w with state, lastHeartbeat := now, lastOnlineAt := some now } }
    else { d with workers := d.workers.insert workerId (newWorker state now) }
  | .elsewhere _ => d

/-- The foreign keys and the uniqueness of the keys. -/
def rejects (d : Db) : Write → Bool
  | .insertTransaction t => (d.accounts.get t.accountId).isNone
  | .insertSettlement leaseId _ =>
    (d.settlements.get leaseId).isSome || (d.leases.get leaseId).isNone
  | .createLease leaseId l =>
    (d.leases.get leaseId).isSome || (d.workers.get l.workerId).isNone ||
      (d.accounts.get l.consumerId).isNone
  | .elsewhere raises => raises
  | _ => false

end Db

/-! ## The connection -/

/-- A write and who executed it. -/
structure Entry where
  who : Nat
  write : Write
deriving DecidableEq

/-- `undone` lists what every `ROLLBACK` so far took back, with who executed it. -/
structure Store where
  base : Db
  conn : Connection Entry
  undone : List (Nat × Entry)

def replay (base : Db) (entries : List Entry) : Db :=
  entries.foldl (fun d e => d.apply e.write) base

theorem replay_append (base : Db) (a b : List Entry) :
    replay base (a ++ b) = replay (replay base a) b := List.foldl_append

namespace Store

def start (base : Db) : Store := ⟨base, ⟨[], none⟩, []⟩

/-- What a `SELECT` reads. -/
def db (s : Store) : Db := replay s.base s.conn.view

def write (s : Store) (who : Nat) (w : Write) : Store := { s with conn := s.conn.write ⟨who, w⟩ }

/-- A write that changes no row opens a transaction all the same. -/
def enter (s : Store) : Store := { s with conn := s.conn.enter }

/-- A statement that writes; `false` where it raises. -/
def execute (s : Store) (who : Nat) (w : Write) : Store × Bool :=
  if s.db.rejects w then (s.enter, false) else (s.write who w, true)

/-- `BEGIN IMMEDIATE`; `none` where it raises. -/
def beginImmediate (s : Store) : Option Store := s.conn.begin.map fun conn => { s with conn }

def commit (s : Store) : Store := { s with conn := s.conn.commit }

/-- `ROLLBACK`; `none` where it raises. -/
def rollback (s : Store) (who : Nat) : Option Store :=
  s.conn.rollback.map fun conn =>
    { s with conn, undone := s.undone ++ (s.conn.opened.getD []).map fun e => (who, e) }

@[simp] theorem db_enter (s : Store) : s.enter.db = s.db := rfl

@[simp] theorem db_commit (s : Store) : s.commit.db = s.db := by
  unfold db commit
  rw [Connection.view_commit]

@[simp] theorem db_write (s : Store) (who : Nat) (w : Write) :
    (s.write who w).db = s.db.apply w := by
  unfold db write
  rw [Connection.view_write, replay_append]
  rfl

theorem execute_ok {s : Store} (who : Nat) {w : Write} (h : s.db.rejects w = false) :
    s.execute who w = (s.write who w, true) := by
  unfold execute
  rw [h]
  rfl

end Store

end TreeMiner.Server
