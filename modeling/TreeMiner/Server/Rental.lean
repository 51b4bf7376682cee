import TreeMiner.Server.Isolation
import TreeMiner.Server.Signer

/-! The coroutines that complete leases and settle them: the handlers of `/api/stop`, which
share a lock, and the watchdog over expired leases, which does not take it. -/

namespace TreeMiner.Server

open Lib

/-! ## What they call -/

/-- `LeaseRepo.get`: the `dict` of a lease at a time. -/
def leaseInfo (leaseId : String) (l : Lease) (now : ℚ) : LeaseInfo where
  leaseId := leaseId
  workerId := l.workerId
  consumerId := l.consumerId
  -- `ended_at or time.time()`: a zero counts as not ended
  elapsedSec := (l.endedAt.filter fun t => t ≠ 0).getD now - l.createdAt
  pricePerSec := some l.pricePerSec
  blocksFound := l.blocksFound

/-- How signing goes for a worker id that is safe: `sign` and the check of the size. -/
abbrev Signing := Except CommandSigningError Unit

/-- `MQTTBroker.publish_task`; the delivery itself raises nothing. The text ends in the id's
`repr`. -/
def publishTask (workerId : String) (signing : Signing) : Except CommandSigningError Unit :=
  if !isSafeIdentifier workerId 1 MAX_ID_LEN then
    .error (.notSignable "Refusing to publish to an unsafe worker id")
  else signing

/-- `require_command_secret` -/
def secretMissing : Signing → Bool
  | .error .secretMissing => true
  | _ => false

/-! ## `/api/stop` -/

structure Caller where
  admin : Bool
  accountId : String

/-- Between `acquire` and the commit of the worker's state the handler holds the lock. -/
inductive StopPc
  | get
  | acquire
  | check
  | complete (lease : LeaseInfo)
  | completeCommit (lease : LeaseInfo)
  | free (lease : LeaseInfo)
  | freeCommit (lease : LeaseInfo)
  | publish (lease : LeaseInfo)
  | refetch
  | settle (c : SettleCall)

structure StopCall where
  leaseId : String
  caller : Caller
  pc : StopPc

/-- A step of the handler, on the lock and the store. -/
def StopCall.step (who : Nat) (now : ℚ) (signing : Signing) (c : StopCall) (lock : Option Nat)
    (s : Store) : Turn StopCall Unit × Option Nat × Store :=
  match c.pc with
  | .get =>
    match s.db.leases.get c.leaseId with
    | none => (.raised, lock, s)
    | some l =>
      if !c.caller.admin && c.caller.accountId ≠ l.consumerId then (.raised, lock, s)
      else if secretMissing signing then (.raised, lock, s)
      else (.live { c with pc := .acquire }, lock, s)
  | .acquire =>
    match lock with
    | none => (.live { c with pc := .check }, some who, s)
    | some _ => (.live c, lock, s)
  | .check =>
    match s.db.leases.get c.leaseId with
    | none => (.raised, none, s)
    | some l =>
      if l.state ≠ .active then (.raised, none, s)
      else (.live { c with pc := .complete (leaseInfo c.leaseId l now) }, lock, s)
  | .complete lease =>
    (.live { c with pc := .completeCommit lease }, lock,
      s.write who (.setLeaseState c.leaseId .completed (some now)))
  | .completeCommit lease => (.live { c with pc := .free lease }, lock, s.commit)
  | .free lease =>
    (.live { c with pc := .freeCommit lease }, lock,
      s.write who (.setWorkerState lease.workerId "AVAILABLE"))
  | .freeCommit lease => (.live { c with pc := .publish lease }, none, s.commit)
  | .publish lease =>
    match publishTask lease.workerId signing with
    | .error _ => (.raised, lock, s)
    | .ok () => (.live { c with pc := .refetch }, lock, s)
  | .refetch =>
    match s.db.leases.get c.leaseId with
    | none => (.raised, lock, s)
    | some l => (.live { c with pc := .settle (settleLease (leaseInfo c.leaseId l now)) }, lock, s)
  | .settle sc =>
    match sc.step who s with
    | (.live sc, s) => (.live { c with pc := .settle sc }, lock, s)
    | (.returned _, s) => (.returned (), lock, s)
    | (.raised, s) => (.raised, lock, s)

/-! ## The watchdog -/

def CHUNK_SIZE : Nat := 64

/-- The cursor of `find_expired`. The row it stands on is read ahead; an empty `ahead` is a
cursor that is done. -/
structure Cursor where
  cutoff : ℚ
  position : Nat
  ahead : List String

/-- The active leases past their duration from a row on, with their rows' numbers. -/
def expiredFrom (d : Db) (cutoff : ℚ) (position : Nat) : List (Nat × String) :=
  ((d.leases.rows.zipIdx.drop position).filter fun row =>
    row.1.2.state = .active ∧ row.1.2.createdAt + row.1.2.durationSec < cutoff).map
      fun row => (row.2, row.1.1)

namespace Cursor

/-- Behind the rows that were read. -/
def moveTo (c : Cursor) (rows : List (Nat × String)) : Nat :=
  (rows.getLast?.map fun row => row.1 + 1).getD c.position

def start (d : Db) (now : ℚ) : Cursor :=
  let rows := (expiredFrom d now 0).take 1
  ⟨now, moveTo ⟨now, 0, []⟩ rows, rows.map Prod.snd⟩

def fetchmany (c : Cursor) (d : Db) : List String × Cursor :=
  if c.ahead = [] then ([], c)
  else
    let rows := (expiredFrom d c.cutoff c.position).take CHUNK_SIZE
    let fetched := c.ahead ++ rows.map Prod.snd
    (fetched.take CHUNK_SIZE, ⟨c.cutoff, c.moveTo rows, fetched.drop CHUNK_SIZE⟩)

end Cursor

/-- `done` are the leases completed so far, as they were read again. -/
inductive WatchCall
  | asleep
  | fetch (cursor : Cursor) (found : List LeaseInfo)
  | get (cursor : Cursor) (ids : List String) (found : List LeaseInfo)
  | complete (done : List (Option LeaseInfo)) (lease : LeaseInfo) (rest : List LeaseInfo)
  | completeCommit (done : List (Option LeaseInfo)) (lease : LeaseInfo) (rest : List LeaseInfo)
  | free (done : List (Option LeaseInfo)) (lease : LeaseInfo) (rest : List LeaseInfo)
  | freeCommit (done : List (Option LeaseInfo)) (lease : LeaseInfo) (rest : List LeaseInfo)
  | publish (done : List (Option LeaseInfo)) (lease : LeaseInfo) (rest : List LeaseInfo)
  | refetch (done : List (Option LeaseInfo)) (lease : LeaseInfo) (rest : List LeaseInfo)
  | settle (c : SettleCall) (rest : List (Option LeaseInfo))

namespace WatchCall

/-- The loop over the leases of `check_expired_leases`. A lease that is gone makes
`settle_lease` raise, which the watchdog catches before it sleeps. -/
def settleNext : List (Option LeaseInfo) → WatchCall
  | [] => .asleep
  | none :: _ => .asleep
  | some lease :: rest => .settle (settleLease lease) rest

def completeNext (done : List (Option LeaseInfo)) : List LeaseInfo → WatchCall
  | [] => settleNext done
  | lease :: rest => .complete done lease rest

def step (who : Nat) (now : ℚ) (signing : Signing) (c : WatchCall) (s : Store) :
    WatchCall × Store :=
  match c with
  | .asleep => (.fetch (.start s.db now) [], s)
  | .fetch cursor found =>
    match cursor.fetchmany s.db with
    | ([], _) => (completeNext [] found, s)
    | (ids, cursor) => (.get cursor ids found, s)
  | .get cursor [] found => (.fetch cursor found, s)
  | .get cursor (leaseId :: ids) found =>
    let found := found ++ ((s.db.leases.get leaseId).map (leaseInfo leaseId · now)).toList
    match ids with
    | [] => (.fetch cursor found, s)
    | _ => (.get cursor ids found, s)
  | .complete done lease rest =>
    (.completeCommit done lease rest,
      s.write who (.setLeaseState lease.leaseId .completed (some now)))
  | .completeCommit done lease rest => (.free done lease rest, s.commit)
  | .free done lease rest =>
    (.freeCommit done lease rest, s.write who (.setWorkerState lease.workerId "AVAILABLE"))
  | .freeCommit done lease rest => (.publish done lease rest, s.commit)
  | .publish done lease rest =>
    match publishTask lease.workerId signing with
    | .ok () | .error .secretMissing => (.refetch done lease rest, s)
    -- not caught in the loop: what is done is dropped
    | .error (.notSignable _) => (.asleep, s)
  | .refetch done lease rest =>
    (completeNext (done ++ [(s.db.leases.get lease.leaseId).map (leaseInfo lease.leaseId · now)])
      rest, s)
  | .settle c rest =>
    match c.step who s with
    | (.live c, s) => (.settle c rest, s)
    | (.returned _, s) => (settleNext rest, s)
    | (.raised, s) => (.asleep, s)

end WatchCall

/-! ## The scheduler -/

inductive Task
  | stop (c : StopCall)
  | watch (c : WatchCall)

def Task.inFlight : Task → Bool
  | .watch .asleep => false
  | _ => true

/-- The coroutines by number, `none` once one has ended; the watchdog is the first. -/
structure Rental where
  store : Store
  lock : Option Nat
  tasks : List (Option Task)

inductive RentalEvent
  | stop (leaseId : String) (caller : Caller)
  | step (who : Nat) (now : ℚ) (signing : Signing)

namespace Rental

def start (base : Db) : Rental := ⟨.start base, none, [some (.watch .asleep)]⟩

def db (r : Rental) : Db := r.store.db

def task? (r : Rental) (who : Nat) : Option Task := r.tasks[who]?.join

def step (r : Rental) : RentalEvent → Rental
  | .stop leaseId caller => { r with tasks := r.tasks ++ [some (.stop ⟨leaseId, caller, .get⟩)] }
  | .step who now signing =>
    match r.task? who with
    | none => r
    | some (.stop c) =>
      match c.step who now signing r.lock r.store with
      | (turn, lock, store) => ⟨store, lock, r.tasks.set who (turn.rest.map .stop)⟩
    | some (.watch c) =>
      match c.step who now signing r.store with
      | (c, store) => { r with store, tasks := r.tasks.set who (some (.watch c)) }

/-- No handler is in flight and the watchdog is asleep. -/
def Quiet (r : Rental) : Prop := ∀ t ∈ r.tasks, ∀ task ∈ t, task.inFlight = false

instance (r : Rental) : Decidable r.Quiet :=
  inferInstanceAs (Decidable (∀ t ∈ r.tasks, ∀ task ∈ t, task.inFlight = false))

end Rental

end TreeMiner.Server
