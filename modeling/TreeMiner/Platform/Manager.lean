import TreeMiner.Core.Address
import TreeMiner.Platform.Envelope
import TreeMiner.Platform.Lease

/-! The platform manager: its states, the commands it acts on and the watchdog. Each
handler answers like the source, with the manager it leaves behind. -/

namespace TreeMiner

def MAX_LEASE_ID_LEN : Nat := 64

def MIN_LEASE_DURATION_SEC : Int := 60

def MAX_LEASE_DURATION_SEC : Int := 7 * 24 * 3600

def MIN_DIFFICULTY : Int := 1

def MAX_DIFFICULTY : Int := 10000000

def MAX_SELF_PREFIX_LEN : Nat := 32

def MAX_BLOCK_PATTERN_LEN : Nat := 16

/-- Required length of an `assign_task` key prefix, in hex characters. -/
def PLATFORM_PREFIX_LENGTH : Nat := 16

inductive PlatformState
  | idle
  | available
  | leased
  | mining
  | completed
  | error
deriving DecidableEq, Repr

def PlatformState.asStr : PlatformState → String
  | .idle => "IDLE"
  | .available => "AVAILABLE"
  | .leased => "LEASED"
  | .mining => "MINING"
  | .completed => "COMPLETED"
  | .error => "ERROR"

/-! ## Commands -/

structure RegisterAck where
  accepted : Bool
deriving DecidableEq, Repr

structure AssignTask where
  leaseId : String
  consumerId : String
  consumerAddress : String
  keyPrefix : String
  durationSec : Int
deriving DecidableEq, Repr

/-- An empty `leaseId` releases whatever lease is active. -/
structure Release where
  leaseId : String
deriving DecidableEq, Repr

structure SetConfig where
  difficulty : Option Int
  address : Option String
  keyPrefix : Option String
  blockPattern : Option String
deriving DecidableEq, Repr

/-- Why a command was not acted on, as far as the handlers decide it. -/
inductive RejectReason
  | badLeaseIdentifiers
  | badConsumerAddress
  | badPrefix
  | badDuration
  | badReleaseLeaseId
  | badDifficulty
  | badPayoutAddress
  | badBlockPattern
  | wrongState (state : String)
deriving DecidableEq, Repr

structure GpuInfo where
  index : Int
  name : String
  memoryGb : Int
  busId : Int
deriving DecidableEq, Repr

/-- What the reporter publishes, less the worker id, timestamps and measurements. -/
inductive Message
  | register (ethAddress : String) (gpus : List GpuInfo)
  | heartbeat (difficulty : Int) (address keyPrefix blockPattern : String)
  | statusUpdate (state leaseId : String)
  | offline
  /-- an empty `leaseId` for a block of the operator's own -/
  | blockFound (leaseId hash key account : String) (attempts : Nat)
deriving DecidableEq, Repr

structure PlatformConfig where
  workerId : String
  ethAddress : String
  gpus : List GpuInfo
deriving DecidableEq, Repr

/-! ## The manager -/

structure PlatformManager where
  config : PlatformConfig
  state : PlatformState
  leases : LeaseManager
  coordinator : MiningCoordinator
  running : Bool
  /-- the miner's pause flag, driven by the state-change callback -/
  miningPaused : Bool
  sent : List Message
deriving DecidableEq, Repr

/-- What an operation reads of the world: the monotonic clock and the broker link. -/
structure PlatformEnv where
  monotonic : Nat
  connected : Bool
deriving DecidableEq, Repr

/-- A handler's answer and the manager after it. -/
abbrev Reply := Except RejectReason Unit × PlatformManager

namespace PlatformManager

def new (config : PlatformConfig) (base : MiningIdentity) (difficulty : Int) : PlatformManager where
  config := config
  state := .idle
  leases := .new
  coordinator := .new ⟨base.userAddress, base.selfMiningPrefix, base.testBlockPattern.getD ""⟩
    difficulty
  running := false
  miningPaused := false
  sent := []

def publish (m : PlatformManager) (msg : Message) : PlatformManager :=
  { m with sent := m.sent ++ [msg] }

def sendRegistration (m : PlatformManager) : PlatformManager :=
  m.publish (.register m.config.ethAddress m.config.gpus)

def publishHeartbeat (m : PlatformManager) : PlatformManager :=
  m.publish (.heartbeat m.coordinator.difficulty m.coordinator.identity.userAddress
    m.coordinator.identity.selfMiningPrefix m.coordinator.identity.testBlockPattern)

/-- The callback `PlatformRuntime::start` installs: the pause flag after a transition. -/
def pausedAfter (running paused : Bool) : PlatformState → PlatformState → Bool
  | .error, .idle => paused
  | _, .idle => if running then true else paused
  | _, .available => if running then false else paused
  | _, _ => paused

def transitionTo (m : PlatformManager) (env : PlatformEnv) (newState : PlatformState) :
    PlatformManager :=
  if m.state = newState then m
  else
    let m' := { m with state := newState }
    let m' := if env.connected then
        m'.publish (.statusUpdate newState.asStr ((m.leases.current.map (·.leaseId)).getD ""))
      else m'
    { m' with miningPaused := pausedAfter m.running m.miningPaused m.state newState }

def endLease (m : PlatformManager) : PlatformManager := { m with leases := m.leases.endLease }

def switchToSelfMining (m : PlatformManager) : PlatformManager :=
  { m with coordinator := m.coordinator.switchToSelfMining }

def switchToPlatformMining (m : PlatformManager) (ctx : MiningContext) : PlatformManager :=
  { m with coordinator := m.coordinator.updateContext ctx }

def announce (m : PlatformManager) (env : PlatformEnv) : PlatformManager :=
  m.sendRegistration.transitionTo env .available

/-- `start`, without the threads it spawns. -/
def start (m : PlatformManager) (env : PlatformEnv) : PlatformManager :=
  if m.running then m else { m with running := true }.announce env

/-- `stop`, without the threads it joins. -/
def stop (m : PlatformManager) (env : PlatformEnv) : PlatformManager :=
  if !m.running then m
  else
    let m := { m with running := false }
    let m := if m.leases.hasActiveLease env.monotonic then m.endLease.switchToSelfMining else m
    (m.publish .offline).transitionTo env .idle

/-! What each building block leaves of the state, the lease and the coordinator. -/

section

variable (m : PlatformManager) (env : PlatformEnv) (new : PlatformState) (msg : Message)

@[simp] theorem publish_state : (m.publish msg).state = m.state := rfl
@[simp] theorem publish_leases : (m.publish msg).leases = m.leases := rfl
@[simp] theorem publish_coordinator : (m.publish msg).coordinator = m.coordinator := rfl
@[simp] theorem sendRegistration_state : m.sendRegistration.state = m.state := rfl
@[simp] theorem sendRegistration_leases : m.sendRegistration.leases = m.leases := rfl
@[simp] theorem sendRegistration_coordinator :
    m.sendRegistration.coordinator = m.coordinator := rfl
@[simp] theorem endLease_state : m.endLease.state = m.state := rfl
@[simp] theorem endLease_current : m.endLease.leases.current = none := rfl
@[simp] theorem endLease_coordinator : m.endLease.coordinator = m.coordinator := rfl
@[simp] theorem switchToSelfMining_state : m.switchToSelfMining.state = m.state := rfl
@[simp] theorem switchToSelfMining_leases : m.switchToSelfMining.leases = m.leases := rfl
@[simp] theorem switchToSelfMining_mode :
    m.switchToSelfMining.coordinator.context.mode = .selfMining := rfl

@[simp] theorem transitionTo_state : (m.transitionTo env new).state = new := by
  unfold transitionTo
  split_ifs with h
  · exact h
  · rfl
  · rfl

@[simp] theorem transitionTo_leases : (m.transitionTo env new).leases = m.leases := by
  unfold transitionTo
  split_ifs <;> rfl

@[simp] theorem transitionTo_coordinator :
    (m.transitionTo env new).coordinator = m.coordinator := by
  unfold transitionTo
  split_ifs <;> rfl

@[simp] theorem transitionTo_config : (m.transitionTo env new).config = m.config := by
  unfold transitionTo
  split_ifs <;> rfl

end

def handleRegisterAck (m : PlatformManager) (ack : RegisterAck) (env : PlatformEnv) : Reply :=
  if ack.accepted then
    (.ok (), if m.state ≠ .available then m.transitionTo env .available else m)
  else (.ok (), m.transitionTo env .error)

section

variable (keccak256 : List UInt8 → Vector UInt8 32)

def handleAssignTask (m : PlatformManager) (task : AssignTask) (env : PlatformEnv) : Reply :=
  if m.state ≠ .available then (.error (.wrongState m.state.asStr), m)
  else if !isSafeIdentifier task.leaseId 1 MAX_LEASE_ID_LEN
      || !isSafeIdentifier task.consumerId 1 MAX_LEASE_ID_LEN then
    (.error .badLeaseIdentifiers, m)
  else if !isValidEthereumAddress keccak256 task.consumerAddress then
    (.error .badConsumerAddress, m)
  else if !task.keyPrefix.isEmpty
      && !isHexString task.keyPrefix PLATFORM_PREFIX_LENGTH PLATFORM_PREFIX_LENGTH then
    (.error .badPrefix, m)
  else if !(decide (MIN_LEASE_DURATION_SEC ≤ task.durationSec)
      && decide (task.durationSec ≤ MAX_LEASE_DURATION_SEC)) then
    (.error .badDuration, m)
  else
    let m := m.transitionTo env .leased
    match m.leases.startLease task.leaseId task.consumerId task.consumerAddress task.keyPrefix
        task.durationSec env.monotonic with
    | none => (.ok (), m.transitionTo env .error)
    | some leases =>
      let m := { m with leases := leases }
      let m := m.switchToPlatformMining (m.leases.toMiningContext m.config.ethAddress)
      (.ok (), m.transitionTo env .mining)

/-- What an available rig checks of a task. -/
theorem handleAssignTask_ok_iff {m : PlatformManager} (hm : m.state = .available)
    (task : AssignTask) (env : PlatformEnv) :
    (m.handleAssignTask keccak256 task env).1 = .ok () ↔
      isSafeIdentifier task.leaseId 1 MAX_LEASE_ID_LEN = true ∧
      isSafeIdentifier task.consumerId 1 MAX_LEASE_ID_LEN = true ∧
      isValidEthereumAddress keccak256 task.consumerAddress = true ∧
      (task.keyPrefix = "" ∨ isHexString task.keyPrefix PLATFORM_PREFIX_LENGTH
        PLATFORM_PREFIX_LENGTH = true) ∧
      MIN_LEASE_DURATION_SEC ≤ task.durationSec ∧
      task.durationSec ≤ MAX_LEASE_DURATION_SEC := by
  unfold handleAssignTask
  rw [if_neg (not_not.2 hm)]
  simp only [Bool.or_eq_true, Bool.and_eq_true, Bool.not_eq_true', Bool.and_eq_false_iff,
    decide_eq_false_iff_not]
  split_ifs with hids haddress hkey hduration
  · refine iff_of_false (by simp) fun h => ?_
    rw [h.1, h.2.1] at hids
    simp at hids
  · refine iff_of_false (by simp) fun h => ?_
    rw [h.2.2.1] at haddress
    cases haddress
  · refine iff_of_false (by simp) fun h => ?_
    rcases h.2.2.2.1 with h | h
    · simp [h] at hkey
    · rw [h] at hkey
      simp at hkey
  · refine iff_of_false (by simp) fun h => ?_
    omega
  · refine iff_of_true ?_ ?_
    · split <;> rfl
    · simp only [not_or, Bool.not_eq_false, not_and, not_not] at hids haddress hkey hduration
      refine ⟨hids.1, hids.2, haddress, ?_, hduration⟩
      cases hempty : task.keyPrefix.isEmpty with
      | true => exact Or.inl (String.isEmpty_iff.1 hempty)
      | false => exact Or.inr (hkey hempty)

def handleRelease (m : PlatformManager) (release : Release) (env : PlatformEnv) : Reply :=
  if !release.leaseId.isEmpty && !isSafeIdentifier release.leaseId 1 MAX_LEASE_ID_LEN then
    (.error .badReleaseLeaseId, m)
  else
    match m.leases.current with
    | none => (.error (.wrongState "no active lease"), m)
    | some current =>
      if !release.leaseId.isEmpty && current.leaseId != release.leaseId then
        (.error (.wrongState "lease_id mismatch"), m)
      else
        (.ok (), ((m.transitionTo env .completed).endLease.switchToSelfMining).transitionTo env
          .available)

def handlePause (m : PlatformManager) (env : PlatformEnv) : Reply :=
  let m := if m.leases.hasActiveLease env.monotonic then m.endLease.switchToSelfMining else m
  (.ok (), m.transitionTo env .idle)

def handleResume (m : PlatformManager) (env : PlatformEnv) : Reply :=
  (.ok (), if m.state = .idle then m.sendRegistration.transitionTo env .available else m)

def setDifficulty (m : PlatformManager) (difficulty : Option Int) : PlatformManager :=
  match difficulty with
  | some d => { m with coordinator := { m.coordinator with difficulty := d } }
  | none => m

/-- The three texts of the remote identity, each changed where the command has it. -/
def setIdentity (m : PlatformManager) (config : SetConfig) : PlatformManager :=
  { m with coordinator := { m.coordinator with identity :=
    { userAddress := config.address.getD m.coordinator.identity.userAddress
      selfMiningPrefix := config.keyPrefix.getD m.coordinator.identity.selfMiningPrefix
      testBlockPattern := config.blockPattern.getD m.coordinator.identity.testBlockPattern } } }

/-- Every present field is validated first; the command is applied only if all pass. -/
def handleSetConfig (m : PlatformManager) (config : SetConfig) : Reply :=
  if config.difficulty.any fun d => !(decide (MIN_DIFFICULTY ≤ d) && decide (d ≤ MAX_DIFFICULTY))
  then (.error .badDifficulty, m)
  else if config.address.any fun a => !isValidEthereumAddress keccak256 a then
    (.error .badPayoutAddress, m)
  else if config.keyPrefix.any fun p => !p.isEmpty && !isHexString p 1 MAX_SELF_PREFIX_LEN then
    (.error .badPrefix, m)
  else if config.blockPattern.any fun p =>
      !p.isEmpty && !isSafeIdentifier p 1 MAX_BLOCK_PATTERN_LEN then
    (.error .badBlockPattern, m)
  else (.ok (), ((m.setDifficulty config.difficulty).setIdentity config).publishHeartbeat)

/-- `on_block_found`: under the lease while mining for a consumer, bare while available. -/
def onBlockFound (m : PlatformManager) (hash key account : String) (attempts : Nat) :
    PlatformManager :=
  match m.state with
  | .mining =>
    match m.leases.current with
    | none => m
    | some lease =>
      { m with leases := m.leases.recordBlock }.publish
        (.blockFound lease.leaseId hash key account attempts)
  | .available => m.publish (.blockFound "" hash key account attempts)
  | _ => m

/-- One watchdog tick: expire a finished lease, and try to climb out of `error`. -/
def watchdogTick (m : PlatformManager) (env : PlatformEnv) : PlatformManager :=
  let m := if m.state = .mining ∧ m.leases.isExpired env.monotonic then
      ((m.transitionTo env .completed).endLease.switchToSelfMining).transitionTo env .available
    else m
  if m.state = .error then
    let m := m.transitionTo env .idle
    if env.connected then m.sendRegistration.transitionTo env .available else m
  else m

end

end PlatformManager

end TreeMiner
