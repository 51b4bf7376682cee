import TreeMiner.Miner.Work
import TreeMiner.Platform.LeaseSafety

/-! Who a reported block is credited to. A batch reads its identity when it starts and
its finds are reported when it ends, under the lease held then; commands and ticks come
anywhere in between. -/

namespace TreeMiner

open Lib

/-- A batch in flight, and whether the lease now held was already held when it began. -/
structure Batch where
  work : Work
  underLease : Bool
deriving DecidableEq, Repr

/-- The manager and its mining threads. -/
structure Rig where
  mgr : PlatformManager
  units : Nat → Option Batch
  /-- what was reported since the last lease began -/
  reports : List Message

inductive RigEvent
  | command (e : PlatformEvent)
  | batchStart (unit slot : Nat)
  /-- a find of the unit's batch, durably captured -/
  | found (unit : Nat) (hash key : String) (attempts : Nat)
  | batchEnd (unit : Nat)

/-- The lease and the account of a report made under one. -/
def Message.underLease : Message → Option (String × String)
  | .blockFound leaseId _ _ account _ => if leaseId.isEmpty then none else some (leaseId, account)
  | _ => none

namespace Rig

variable (keccak256 : List UInt8 → Vector UInt8 32) (base : MiningIdentity)

def setUnit (s : Rig) (unit : Nat) (b : Option Batch) : Rig :=
  { s with units := Function.update s.units unit b }

def command (s : Rig) (e : PlatformEvent) : Rig :=
  let m := s.mgr.perform keccak256 e
  if s.mgr.leases.current.isNone ∧ m.leases.current.isSome then
    ⟨m, fun unit => (s.units unit).map fun b => { b with underLease := false }, []⟩
  else { s with mgr := m }

/-- A paused unit starts no batch. -/
def batchStart (s : Rig) (unit slot : Nat) : Rig :=
  if s.mgr.miningPaused then s
  else
    s.setUnit unit (some ⟨selectWork (currentIdentity base s.mgr.coordinator)
      ((slot : Int) % DEVFEE_CYCLE), s.mgr.leases.current.isSome⟩)

/-- The observer of a durable find, which a stopped manager does not have. -/
def report (s : Rig) (b : Batch) (hash key : String) (attempts : Nat) : Rig :=
  if !s.mgr.running then s
  else
    let m := s.mgr.onBlockFound hash key b.work.account attempts
    { s with mgr := m, reports := s.reports ++ m.sent.drop s.mgr.sent.length }

def step (s : Rig) : RigEvent → Rig
  | .command e => s.command keccak256 e
  | .batchStart unit slot => s.batchStart base unit slot
  | .found unit hash key attempts =>
    match s.units unit with
    | none => s
    | some b => s.report b hash key attempts
  | .batchEnd unit => s.setUnit unit none

def started (config : PlatformConfig) (difficulty : Int) (env : PlatformEnv) : Rig :=
  ⟨.started config base difficulty env, fun _ => none, []⟩

end Rig

namespace PlatformManager

variable {keccak256 : List UInt8 → Vector UInt8 32} {m : PlatformManager}

end PlatformManager

namespace Rig

open PlatformManager

variable {keccak256 : List UInt8 → Vector UInt8 32} {base : MiningIdentity} {s : Rig}

/-- A lease the manager can have started: named, and for a valid address. -/
theorem AssignTask.WellFormed.named {task : AssignTask} (h : task.WellFormed keccak256) :
    task.leaseId.isEmpty = false ∧ isValidEthereumAddress keccak256 task.consumerAddress = true := by
  obtain ⟨hid, -, haddr, -⟩ := h
  refine ⟨?_, haddr⟩
  cases hempty : task.leaseId.isEmpty with
  | false => rfl
  | true =>
    rw [String.isEmpty_iff.1 hempty] at hid
    cases hid

end Rig

open Rig

end TreeMiner
