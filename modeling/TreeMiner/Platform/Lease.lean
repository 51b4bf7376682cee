import TreeMiner.Core.Prim

/-! The lease and the mining context of `tm-platform`, and the identity the miner reads
from the context. Monotonic readings are nanoseconds. -/

namespace TreeMiner

def NANOS_PER_SEC : Nat := 1000000000

structure LeaseInfo where
  leaseId : String
  consumerId : String
  consumerAddress : String
  keyPrefix : String
  durationSec : Int
  /-- monotonic reading at `start_lease` -/
  startedAt : Nat
  blocksFound : Int
deriving DecidableEq, Repr

/-- Whole seconds since the lease began, saturating at zero. -/
def LeaseInfo.elapsedSecs (lease : LeaseInfo) (now : Nat) : Int :=
  ((now - lease.startedAt) / NANOS_PER_SEC : Nat)

inductive MiningMode
  | selfMining
  | platformMining
deriving DecidableEq, Repr

/-- Who the miner is currently working for. -/
structure MiningContext where
  mode : MiningMode
  address : String
  keyPrefix : String
  consumerId : String
  leaseId : String
deriving DecidableEq, Repr

/-- What a signed `set_config` may change. -/
structure RemoteIdentity where
  userAddress : String
  selfMiningPrefix : String
  testBlockPattern : String
deriving DecidableEq, Repr

structure MiningCoordinator where
  context : MiningContext
  identity : RemoteIdentity
  difficulty : Int
deriving DecidableEq, Repr

def selfMiningContext (address : String) : MiningContext :=
  ⟨.selfMining, address, "", "", ""⟩

def LeaseInfo.miningContext (lease : LeaseInfo) : MiningContext :=
  ⟨.platformMining, lease.consumerAddress, lease.keyPrefix, lease.consumerId, lease.leaseId⟩

namespace MiningCoordinator

def new (identity : RemoteIdentity) (difficulty : Int) : MiningCoordinator :=
  ⟨selfMiningContext identity.userAddress, identity, difficulty⟩

def switchToSelfMining (c : MiningCoordinator) : MiningCoordinator :=
  { c with context := selfMiningContext c.identity.userAddress }

def updateContext (c : MiningCoordinator) (ctx : MiningContext) : MiningCoordinator :=
  { c with context := ctx }

end MiningCoordinator

/-! ## Lease manager -/

/-- The one lease slot. -/
structure LeaseManager where
  current : Option LeaseInfo
deriving DecidableEq, Repr

namespace LeaseManager

def new : LeaseManager := ⟨none⟩

/-- `none` when a lease is already held, expired or not. -/
def startLease (l : LeaseManager) (leaseId consumerId consumerAddress keyPrefix : String)
    (durationSec : Int) (now : Nat) : Option LeaseManager :=
  match l.current with
  | some _ => none
  | none => some ⟨some ⟨leaseId, consumerId, consumerAddress, keyPrefix, durationSec, now, 0⟩⟩

def endLease (_ : LeaseManager) : LeaseManager := ⟨none⟩

/-- No lease reads as expired; a duration of 0 never expires. -/
def isExpired (l : LeaseManager) (now : Nat) : Bool :=
  match l.current with
  | none => true
  | some lease =>
    if lease.durationSec ≤ 0 then false else decide (lease.elapsedSecs now ≥ lease.durationSec)

def hasActiveLease (l : LeaseManager) (now : Nat) : Bool :=
  l.current.isSome && !l.isExpired now

def recordBlock (l : LeaseManager) : LeaseManager :=
  ⟨l.current.map fun lease => { lease with blocksFound := lease.blocksFound + 1 }⟩

def remainingSeconds (l : LeaseManager) (now : Nat) : Int :=
  match l.current with
  | none => 0
  | some lease => max (lease.durationSec - lease.elapsedSecs now) 0

def toMiningContext (l : LeaseManager) (selfAddress : String) : MiningContext :=
  match l.current with
  | none => selfMiningContext selfAddress
  | some lease => lease.miningContext

/-- A lease with a positive duration has expired from the end of that duration on. -/
theorem isExpired_iff {lease : LeaseInfo} {now : Nat} (hd : 0 < lease.durationSec) :
    (LeaseManager.mk (some lease)).isExpired now = true ↔
      lease.startedAt + lease.durationSec.toNat * NANOS_PER_SEC ≤ now := by
  have hdur : lease.durationSec = (lease.durationSec.toNat : Int) := by omega
  have hpos : 0 < lease.durationSec.toNat := by omega
  have hle : lease.durationSec.toNat ≤ (now - lease.startedAt) / NANOS_PER_SEC ↔
      lease.durationSec.toNat * NANOS_PER_SEC ≤ now - lease.startedAt :=
    Nat.le_div_iff_mul_le (by decide)
  have hn : 0 < lease.durationSec.toNat * NANOS_PER_SEC := Nat.mul_pos hpos (by decide)
  unfold isExpired
  simp only [if_neg (not_le.2 hd), decide_eq_true_eq, ge_iff_le]
  rw [hdur, LeaseInfo.elapsedSecs, Int.ofNat_le, hle, Int.toNat_natCast]
  omega

end LeaseManager

/-! ## The identity of the next batch -/

/-- The identity the configuration resolved, and what `current_identity` answers with. -/
structure MiningIdentity where
  userAddress : String
  devfeeAddress : String
  ecoDevfeeAddress : String
  devfeePermillage : Int
  selfMiningPrefix : String
  testBlockPattern : Option String
deriving DecidableEq, Repr

/-- `PlatformRuntime::current_identity`: the consumer's address and prefix under a lease,
else the resolved identity with what `set_config` has changed. -/
def currentIdentity (base : MiningIdentity) (c : MiningCoordinator) : MiningIdentity :=
  let pattern := if c.identity.testBlockPattern.isEmpty then base.testBlockPattern
    else some c.identity.testBlockPattern
  match c.context.mode with
  | .platformMining => ⟨c.context.address, "", "", 0, c.context.keyPrefix, pattern⟩
  | .selfMining =>
    { base with
      userAddress := c.identity.userAddress
      selfMiningPrefix := c.identity.selfMiningPrefix
      testBlockPattern := pattern }

end TreeMiner
