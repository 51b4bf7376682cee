import TreeMiner.Lib.Run
import TreeMiner.Platform.Manager

/-! Runs of authorised commands and watchdog ticks. In every run the mining context is
that of the held lease; that the platform state agrees with the lease, and that an
expired lease ends, hold exactly when no operation leaves a state behind its lease. -/

namespace TreeMiner

open Lib

inductive PlatformOp
  | registerAck (ack : RegisterAck)
  | assignTask (task : AssignTask)
  | release (release : Release)
  | pause
  | resume
  | setConfig (config : SetConfig)
  | watchdogTick
deriving DecidableEq, Repr

structure PlatformEvent where
  op : PlatformOp
  env : PlatformEnv
deriving DecidableEq, Repr

/-- A lease the handlers can have started: its duration passed the bounds check. -/
def LeaseInfo.InBounds (lease : LeaseInfo) : Prop :=
  MIN_LEASE_DURATION_SEC ≤ lease.durationSec ∧ lease.durationSec ≤ MAX_LEASE_DURATION_SEC

/-- The five checks `handle_assign_task` makes before any state change. -/
def AssignTask.WellFormed (keccak256 : List UInt8 → Vector UInt8 32) (task : AssignTask) : Prop :=
  isSafeIdentifier task.leaseId 1 MAX_LEASE_ID_LEN = true ∧
  isSafeIdentifier task.consumerId 1 MAX_LEASE_ID_LEN = true ∧
  isValidEthereumAddress keccak256 task.consumerAddress = true ∧
  (task.keyPrefix.isEmpty ||
    isHexString task.keyPrefix PLATFORM_PREFIX_LENGTH PLATFORM_PREFIX_LENGTH) = true ∧
  MIN_LEASE_DURATION_SEC ≤ task.durationSec ∧ task.durationSec ≤ MAX_LEASE_DURATION_SEC

/-- The lease a task asks for, started at a monotonic reading. -/
def AssignTask.lease (task : AssignTask) (startedAt : Nat) : LeaseInfo :=
  ⟨task.leaseId, task.consumerId, task.consumerAddress, task.keyPrefix, task.durationSec,
    startedAt, 0⟩

namespace PlatformManager

section

variable (keccak256 : List UInt8 → Vector UInt8 32)

/-- One authorised command or watchdog tick. -/
def perform (m : PlatformManager) (e : PlatformEvent) : PlatformManager :=
  match e.op with
  | .registerAck ack => (m.handleRegisterAck ack e.env).2
  | .assignTask task => (m.handleAssignTask keccak256 task e.env).2
  | .release release => (m.handleRelease release e.env).2
  | .pause => (m.handlePause e.env).2
  | .resume => (m.handleResume e.env).2
  | .setConfig config => (m.handleSetConfig keccak256 config).2
  | .watchdogTick => m.watchdogTick e.env

end

/-- The manager after `start`, in state `available`. -/
def started (config : PlatformConfig) (base : MiningIdentity) (difficulty : Int)
    (env : PlatformEnv) : PlatformManager :=
  (new config base difficulty).start env

/-! ## What one operation does to the lease -/

/-- How an operation leaves lease and context: untouched, ended, or newly started. -/
inductive Effect (m m' : PlatformManager) : Prop
  | kept (hl : m'.leases = m.leases) (hc : m'.coordinator.context = m.coordinator.context)
      (hs : m'.state = .mining → m.state = .mining)
  | ended (hl : m'.leases.current = none) (hc : m'.coordinator.context.mode = .selfMining)
      (hs : m'.state = .idle ∨ m'.state = .available)
  | began (lease : LeaseInfo) (hfree : m.leases.current = none) (hb : lease.InBounds)
      (hl : m'.leases.current = some lease) (hc : m'.coordinator.context = lease.miningContext)
      (hs : m'.state = .mining)

variable {keccak256 : List UInt8 → Vector UInt8 32} {m : PlatformManager} {env : PlatformEnv}

theorem Effect.same (m : PlatformManager) : Effect m m := .kept rfl rfl id

theorem handleRegisterAck_effect (ack : RegisterAck) :
    Effect m (m.handleRegisterAck ack env).2 := by
  unfold handleRegisterAck
  split_ifs
  · exact .kept (by simp) (by simp) (by simp)
  · exact .same m
  · exact .kept (by simp) (by simp) (by simp)

/-- An assignment either changes nothing, or finds the slot taken, or starts the lease. -/
theorem handleAssignTask_cases (task : AssignTask) :
    (m.handleAssignTask keccak256 task env).2 = m ∨
    (m.state = .available ∧ m.leases.current.isSome ∧
      (m.handleAssignTask keccak256 task env).2 =
        (m.transitionTo env .leased).transitionTo env .error) ∨
    (m.state = .available ∧ m.leases.current = none ∧ task.WellFormed keccak256 ∧
      (m.handleAssignTask keccak256 task env).2.leases.current =
        some (task.lease env.monotonic) ∧
      (m.handleAssignTask keccak256 task env).2.coordinator.context =
        (task.lease env.monotonic).miningContext ∧
      (m.handleAssignTask keccak256 task env).2.state = .mining) := by
  unfold handleAssignTask
  split_ifs with hs hid haddr hpre hdur
  · exact Or.inl rfl
  · exact Or.inl rfl
  · exact Or.inl rfl
  · exact Or.inl rfl
  · exact Or.inl rfl
  · rw [not_not] at hs
    cases hcur : m.leases.current with
    | some lease => exact Or.inr (Or.inl ⟨hs, rfl, by simp [LeaseManager.startLease, hcur]⟩)
    | none =>
      refine Or.inr (Or.inr ⟨hs, rfl, ?_, ?_, ?_, ?_⟩)
      · simp only [Bool.or_eq_true, Bool.not_eq_true', not_or, Bool.not_eq_false,
          Bool.and_eq_true, not_and, Bool.and_eq_false_iff,
          decide_eq_false_iff_not, not_not] at hid haddr hpre hdur
        refine ⟨hid.1, hid.2, haddr, ?_, hdur.1, hdur.2⟩
        cases he : task.keyPrefix.isEmpty with
        | true => rfl
        | false => simpa using hpre he
      · simp [LeaseManager.startLease, hcur, switchToPlatformMining, AssignTask.lease]
      · simp [LeaseManager.startLease, hcur, switchToPlatformMining, AssignTask.lease,
          MiningCoordinator.updateContext, LeaseManager.toMiningContext]
      · simp [LeaseManager.startLease, hcur]

theorem handleAssignTask_effect (task : AssignTask) :
    Effect m (m.handleAssignTask keccak256 task env).2 := by
  rcases handleAssignTask_cases task with h | ⟨-, -, h⟩ | ⟨-, hfree, hwf, hl, hc, hs⟩
  · rw [h]; exact .same m
  · rw [h]; exact .kept (by simp) (by simp) (by simp)
  · exact .began _ hfree ⟨hwf.2.2.2.2.1, hwf.2.2.2.2.2⟩ hl hc hs

/-- With a free slot, a well-formed task received while available is mined for. -/
theorem handleAssignTask_takes {task : AssignTask} (hs : m.state = .available)
    (hfree : m.leases.current = none) (hwf : task.WellFormed keccak256) :
    (m.handleAssignTask keccak256 task env).2.state = .mining := by
  obtain ⟨hl, hc, ha, hp, hmin, hmax⟩ := hwf
  unfold handleAssignTask
  rw [if_neg (by simp [hs]), if_neg (by simp [hl, hc]), if_neg (by simp [ha]),
    if_neg (by cases he : task.keyPrefix.isEmpty <;> simp_all), if_neg (by simp [hmin, hmax])]
  simp [LeaseManager.startLease, hfree]

theorem handleRelease_effect (release : Release) :
    Effect m (m.handleRelease release env).2 := by
  unfold handleRelease
  split_ifs with hid
  · exact .same m
  cases m.leases.current with
  | none => exact .same m
  | some current =>
    dsimp only
    split_ifs
    · exact .same m
    · exact .ended (by simp) (by simp) (by simp)

/-- Pausing ends a lease that is still running, and no other. -/
theorem handlePause_cases :
    (m.leases.hasActiveLease env.monotonic = false ∧
      (m.handlePause env).2 = m.transitionTo env .idle) ∨
    (m.leases.hasActiveLease env.monotonic = true ∧
      (m.handlePause env).2 = m.endLease.switchToSelfMining.transitionTo env .idle) := by
  unfold handlePause
  cases h : m.leases.hasActiveLease env.monotonic with
  | true => exact Or.inr ⟨rfl, by simp⟩
  | false => exact Or.inl ⟨rfl, by simp⟩

theorem handlePause_effect : Effect m (m.handlePause env).2 := by
  rcases @handlePause_cases m env with ⟨-, h⟩ | ⟨-, h⟩
  · rw [h]; exact .kept (by simp) (by simp) (by simp)
  · rw [h]; exact .ended (by simp) (by simp) (by simp)

theorem handleResume_effect : Effect m (m.handleResume env).2 := by
  unfold handleResume
  dsimp only
  split_ifs
  · exact .kept (by simp) (by simp) (by simp)
  · exact .same m

/-- A configuration change touches neither state nor lease nor context. -/
theorem handleSetConfig_keeps (config : SetConfig) :
    (m.handleSetConfig keccak256 config).2.state = m.state ∧
    (m.handleSetConfig keccak256 config).2.leases = m.leases ∧
    (m.handleSetConfig keccak256 config).2.coordinator.context = m.coordinator.context := by
  unfold handleSetConfig
  split_ifs
  · exact ⟨rfl, rfl, rfl⟩
  · exact ⟨rfl, rfl, rfl⟩
  · exact ⟨rfl, rfl, rfl⟩
  · exact ⟨rfl, rfl, rfl⟩
  · cases h : config.difficulty <;> exact ⟨rfl, rfl, rfl⟩

/-- A tick ends an expired lease in `mining`, moves on from `error` with the lease it
finds, and does nothing else. -/
theorem watchdogTick_cases :
    (m.state = .mining ∧ m.leases.isExpired env.monotonic = true ∧
      m.watchdogTick env =
        ((m.transitionTo env .completed).endLease.switchToSelfMining).transitionTo env
          .available) ∨
    (m.state = .error ∧ (m.watchdogTick env).leases = m.leases ∧
      (m.watchdogTick env).coordinator = m.coordinator ∧
      ((m.watchdogTick env).state = .idle ∨ (m.watchdogTick env).state = .available)) ∨
    (m.state ≠ .error ∧ ¬ (m.state = .mining ∧ m.leases.isExpired env.monotonic = true) ∧
      m.watchdogTick env = m) := by
  unfold watchdogTick
  by_cases hm : m.state = .mining ∧ m.leases.isExpired env.monotonic = true
  · exact Or.inl ⟨hm.1, hm.2, by rw [if_pos hm]; simp⟩
  · by_cases he : m.state = .error
    · refine Or.inr (Or.inl ⟨he, ?_⟩)
      simp only [if_neg hm, if_pos he]
      split_ifs <;> simp
    · exact Or.inr (Or.inr ⟨he, hm, by simp only [if_neg hm, if_neg he]⟩)

theorem watchdogTick_effect : Effect m (m.watchdogTick env) := by
  rcases @watchdogTick_cases m env with ⟨-, -, h⟩ | ⟨-, hl, hc, hs⟩ | ⟨-, -, h⟩
  · rw [h]; exact .ended (by simp) (by simp) (by simp)
  · exact .kept hl (by rw [hc]) fun h => by rcases hs with hs | hs <;> simp [hs] at h
  · rw [h]; exact .same m

theorem perform_effect (e : PlatformEvent) : Effect m (m.perform keccak256 e) := by
  unfold perform
  cases e.op with
  | registerAck ack => exact handleRegisterAck_effect ack
  | assignTask task => exact handleAssignTask_effect task
  | release release => exact handleRelease_effect release
  | pause => exact handlePause_effect
  | resume => exact handleResume_effect
  | setConfig config =>
    obtain ⟨hs, hl, hc⟩ := @handleSetConfig_keeps keccak256 m config
    exact .kept hl hc fun h => hs ▸ h
  | watchdogTick => exact watchdogTick_effect

/-! ## The context follows the lease -/

/-- In every run: a held lease has a checked duration and is mined for, without one the
rig mines for its operator, and `mining` needs a lease. -/
structure Tied (m : PlatformManager) : Prop where
  held : ∀ lease, m.leases.current = some lease →
    lease.InBounds ∧ m.coordinator.context = lease.miningContext
  free : m.leases.current = none → m.coordinator.context.mode = .selfMining
  mining : m.state = .mining → m.leases.current ≠ none

theorem Tied.step {m m' : PlatformManager} (h : Tied m) (he : Effect m m') : Tied m' := by
  cases he with
  | kept hl hc hs =>
    refine ⟨?_, ?_, ?_⟩
    · rw [hl, hc]; exact h.held
    · rw [hl, hc]; exact h.free
    · rw [hl]; exact fun hm => h.mining (hs hm)
  | ended hl hc hs =>
    refine ⟨fun lease hcur => ?_, fun _ => hc, fun hm => ?_⟩
    · rw [hl] at hcur; cases hcur
    · rcases hs with hs | hs <;> simp [hs] at hm
  | began lease hfree hb hl hc hs =>
    refine ⟨fun lease' hcur => ?_, fun hnone => ?_, fun _ => by simp [hl]⟩
    · rw [hl, Option.some.injEq] at hcur
      subst hcur
      exact ⟨hb, hc⟩
    · rw [hl] at hnone; cases hnone

theorem tied_started (config : PlatformConfig) (base : MiningIdentity) (difficulty : Int)
    (env : PlatformEnv) : Tied (started config base difficulty env) := by
  have hl : (started config base difficulty env).leases.current = none := by
    simp [started, start, announce, new, LeaseManager.new]
  refine ⟨fun lease h => ?_, fun _ => ?_, fun h => ?_⟩
  · rw [hl] at h; cases h
  · simp [started, start, announce, new, MiningCoordinator.new, selfMiningContext]
  · simp [started, start, announce, new] at h

/-! ## State, lease and identity agree -/

/-- While mining, the next batch is the lease's; while idle or available no lease is
held and the next batch is the operator's. -/
structure Agrees (base : MiningIdentity) (m : PlatformManager) : Prop where
  mining : m.state = .mining → ∃ lease, m.leases.current = some lease ∧
    (currentIdentity base m.coordinator).userAddress = lease.consumerAddress ∧
    (currentIdentity base m.coordinator).selfMiningPrefix = lease.keyPrefix
  waiting : m.state = .idle ∨ m.state = .available → m.leases.current = none ∧
    (currentIdentity base m.coordinator).userAddress = m.coordinator.identity.userAddress

/-- The operation does not leave a held lease behind: an accepted registration and a
watchdog recovery find the slot free, a pause finds any held lease still running. -/
def KeepsLease (t : Trans PlatformManager PlatformEvent) : Prop :=
  match t.ev.op with
  | .registerAck ack => ack.accepted = true → t.pre.leases.current = none
  | .pause => t.pre.leases.current ≠ none → t.pre.leases.hasActiveLease t.ev.env.monotonic = true
  | .watchdogTick => t.pre.state = .error → t.pre.leases.current = none
  | _ => True

/-- The invariant behind `Agrees`. -/
structure Consistent (m : PlatformManager) : Prop where
  tied : Tied m
  waiting : m.state = .idle ∨ m.state = .available → m.leases.current = none

theorem Consistent.agrees {base : MiningIdentity} {m : PlatformManager} (h : Consistent m) :
    Agrees base m := by
  refine ⟨fun hm => ?_, fun hw => ⟨h.waiting hw, ?_⟩⟩
  · obtain ⟨lease, hcur⟩ := Option.ne_none_iff_exists'.1 (h.tied.mining hm)
    have hc := (h.tied.held lease hcur).2
    refine ⟨lease, hcur, ?_, ?_⟩ <;> simp [currentIdentity, hc, LeaseInfo.miningContext]
  · simp [currentIdentity, h.tied.free (h.waiting hw)]

/-- What an operation that keeps its lease leaves behind while idle or available. -/
theorem waiting_step {m : PlatformManager} (e : PlatformEvent)
    (hw : m.state = .idle ∨ m.state = .available → m.leases.current = none)
    (hk : KeepsLease ⟨m, e, m.perform keccak256 e⟩) :
    (m.perform keccak256 e).state = .idle ∨ (m.perform keccak256 e).state = .available →
      (m.perform keccak256 e).leases.current = none := by
  obtain ⟨op, env⟩ := e
  unfold KeepsLease at hk
  cases op with
  | registerAck ack =>
    simp only [perform, handleRegisterAck] at hk ⊢
    split_ifs with ha
    · exact fun _ => by simpa using hk ha
    · exact hw
    · simp
  | assignTask task =>
    simp only [perform]
    rcases @handleAssignTask_cases keccak256 m env task with
      h | ⟨-, -, h⟩ | ⟨-, -, -, -, -, hs⟩
    · rw [h]; exact hw
    · simp [h]
    · simp [hs]
  | release release =>
    simp only [perform, handleRelease]
    split_ifs
    · exact hw
    · cases hcur : m.leases.current with
      | none => exact fun _ => by simpa using hcur
      | some current =>
        dsimp only
        split_ifs
        · exact hw
        · simp
  | pause =>
    rcases @handlePause_cases m env with ⟨hact, h⟩ | ⟨-, h⟩
    · intro _
      by_contra hcur
      have hcur : m.leases.current ≠ none := by simpa [perform, h] using hcur
      simp [hk hcur] at hact
    · simp [perform, h]
  | resume =>
    simp only [perform, handleResume]
    split_ifs with hi
    · exact fun _ => by simpa using hw (Or.inl hi)
    · exact hw
  | setConfig config =>
    obtain ⟨hs, hl, -⟩ := @handleSetConfig_keeps keccak256 m config
    simp only [perform]
    rw [hs, hl]
    exact hw
  | watchdogTick =>
    simp only [perform]
    rcases @watchdogTick_cases m env with ⟨-, -, h⟩ | ⟨he, hl, -, -⟩ | ⟨-, -, h⟩
    · simp [h]
    · rw [hl]; exact fun _ => hk he
    · rw [h]; exact hw

/-- An operation that leaves a lease behind ends idle or available with the lease held. -/
theorem not_agrees_of_not_keeps {base : MiningIdentity} {m : PlatformManager} (e : PlatformEvent)
    (hk : ¬ KeepsLease ⟨m, e, m.perform keccak256 e⟩) :
    ¬ Agrees base (m.perform keccak256 e) := by
  obtain ⟨op, env⟩ := e
  unfold KeepsLease at hk
  cases op with
  | registerAck ack =>
    simp only [Classical.not_imp] at hk
    obtain ⟨ha, hcur⟩ := hk
    intro h
    simp only [perform, handleRegisterAck, if_pos ha] at h
    split_ifs at h with hs
    · exact hcur (by simpa using (h.waiting (by simp)).1)
    · exact hcur (h.waiting (Or.inr (not_not.1 hs))).1
  | pause =>
    simp only [Classical.not_imp] at hk
    obtain ⟨hcur, hact⟩ := hk
    intro h
    rcases @handlePause_cases m env with ⟨-, hp⟩ | ⟨hact', -⟩
    · simp only [perform, hp] at h
      exact hcur (by simpa using (h.waiting (by simp)).1)
    · exact hact hact'
  | watchdogTick =>
    simp only [Classical.not_imp] at hk
    obtain ⟨he, hcur⟩ := hk
    intro h
    rcases @watchdogTick_cases m env with ⟨hm, -, -⟩ | ⟨-, hl, -, hs⟩ | ⟨hne, -, -⟩
    · rw [he] at hm; cases hm
    · exact hcur (by rw [← hl]; exact (h.waiting hs).1)
    · exact hne he
  | assignTask task => exact absurd trivial hk
  | release release => exact absurd trivial hk
  | resume => exact absurd trivial hk
  | setConfig config => exact absurd trivial hk

end PlatformManager

open PlatformManager

/-- Over every run from a started manager, state, lease and identity agree after each
operation if and only if no operation leaves a held lease behind. -/
theorem lease_state_identity_agree (keccak256 : List UInt8 → Vector UInt8 32)
    (config : PlatformConfig) (base : MiningIdentity) (difficulty : Int) (env : PlatformEnv)
    (events : List PlatformEvent) :
    let s := started config base difficulty env
    (∀ m ∈ visited s (trace (perform keccak256) s events), Agrees base m) ↔
      ∀ t ∈ trace (perform keccak256) s events, KeepsLease t := by
  intro s
  have hs : Consistent s := by
    refine ⟨tied_started config base difficulty env, fun _ => ?_⟩
    simp [s, started, start, announce, new, LeaseManager.new]
  refine (Run.trace (perform keccak256) s events).forall_iff (I := Consistent)
    (fun m hm => hm.agrees) ?_ ?_ hs
  · rintro ⟨m, e, m'⟩ hstep hI hk
    dsimp only at hstep hI
    subst hstep
    exact ⟨hI.tied.step (perform_effect e), waiting_step e hI.waiting hk⟩
  · rintro ⟨m, e, m'⟩ hstep - hk
    dsimp only at hstep
    subst hstep
    exact not_agrees_of_not_keeps e hk

/-! A Keccak-256 to evaluate with: an address of digits only is valid under every one. -/

def flatKeccak : List UInt8 → Vector UInt8 32 := fun _ => Vector.replicate 32 0

def operatorBase : MiningIdentity :=
  ⟨"0x1111111111111111111111111111111111111111", "", "", 0, "", none⟩

def freshManager : PlatformManager :=
  started ⟨"rig-1", operatorBase.userAddress, []⟩ operatorBase 60 ⟨0, true⟩

def minuteTask : AssignTask :=
  ⟨"lease-1", "consumer-1", "0x2222222222222222222222222222222222222222", "0011223344556677", 60⟩

/-- The rig is leased before the platform's acknowledgement of its registration arrives. -/
def ackAfterAssign : List PlatformEvent :=
  [⟨.assignTask minuteTask, ⟨0, true⟩⟩, ⟨.registerAck ⟨true⟩, ⟨NANOS_PER_SEC, true⟩⟩]

/-- After the late acknowledgement the rig counts as available, still holds the lease and
mines for its consumer. -/
theorem available_under_lease :
    ¬ Agrees operatorBase (ackAfterAssign.foldl (perform flatKeccak) freshManager) ∧
    (currentIdentity operatorBase
      (ackAfterAssign.foldl (perform flatKeccak) freshManager).coordinator).userAddress =
        minuteTask.consumerAddress := by
  refine ⟨fun h => ?_, by decide⟩
  have hlease : (ackAfterAssign.foldl (perform flatKeccak) freshManager).leases.current ≠ none := by
    decide
  exact hlease (h.waiting (Or.inr (by decide))).1

/-! ## An expired lease ends -/

def PlatformOp.isAssign : PlatformOp → Bool
  | .assignTask _ => true
  | _ => false

/-- No lease is held, the rig mines for its operator, and as long as no other task comes
first, a well-formed one received while available is taken. -/
structure LeaseOver (keccak256 : List UInt8 → Vector UInt8 32) (m : PlatformManager) : Prop where
  free : m.leases.current = none
  selfMining : m.coordinator.context.mode = .selfMining
  takes : ∀ events : List PlatformEvent, (∀ e ∈ events, e.op.isAssign = false) →
    ∀ task env, task.WellFormed keccak256 →
      (events.foldl (perform keccak256) m).state = .available →
      (perform keccak256 (events.foldl (perform keccak256) m) ⟨.assignTask task, env⟩).state =
        .mining

/-- Only an assignment starts a lease. -/
theorem PlatformManager.free_step {keccak256 : List UInt8 → Vector UInt8 32} {m : PlatformManager}
    {e : PlatformEvent} (he : e.op.isAssign = false) (h : m.leases.current = none) :
    (m.perform keccak256 e).leases.current = none := by
  obtain ⟨op, env⟩ := e
  cases op with
  | assignTask task => cases he
  | registerAck ack =>
    simp only [perform, handleRegisterAck]
    split_ifs <;> simpa using h
  | release release =>
    simp only [perform, handleRelease, h]
    split_ifs <;> exact h
  | pause => rcases @handlePause_cases m env with ⟨-, hp⟩ | ⟨-, hp⟩ <;>
      simp [perform, hp, h]
  | resume =>
    simp only [perform, handleResume]
    split_ifs <;> simpa using h
  | setConfig config =>
    simp only [perform, (handleSetConfig_keeps config).2.1]
    exact h
  | watchdogTick =>
    simp only [perform]
    rcases @watchdogTick_cases m env with ⟨-, -, h'⟩ | ⟨-, hl, -, -⟩ | ⟨-, -, h'⟩
    · simp [h']
    · rw [hl]; exact h
    · rw [h']; exact h

theorem leaseOver_of_free {keccak256 : List UInt8 → Vector UInt8 32} {m : PlatformManager}
    (hfree : m.leases.current = none) (hself : m.coordinator.context.mode = .selfMining) :
    LeaseOver keccak256 m := by
  refine ⟨hfree, hself, fun events hne task env hwf hs => ?_⟩
  refine handleAssignTask_takes hs ?_ hwf
  have hC : ∀ t ∈ trace (perform keccak256) m events, t.ev.op.isAssign = false := by
    intro t ht
    exact hne _ (mem_of_mem_trace ht)
  refine ((Run.trace (perform keccak256) m events).inv_of
    (I := fun m => m.leases.current = none) ?_ hfree hC).2.2
  rintro ⟨m, e, m'⟩ hstep hI he
  dsimp only at hstep hI
  subst hstep
  exact free_step he hI

/-- At every watchdog tick of every run that finds the held lease's duration over: the
tick ends the lease if and only if it finds the manager mining. -/
theorem tick_ends_lease_iff_mining (keccak256 : List UInt8 → Vector UInt8 32)
    (config : PlatformConfig) (base : MiningIdentity) (difficulty : Int) (env : PlatformEnv)
    (events : List PlatformEvent) :
    ∀ t ∈ trace (perform keccak256) (started config base difficulty env) events,
      t.ev.op = .watchdogTick → ∀ lease, t.pre.leases.current = some lease →
      lease.startedAt + lease.durationSec.toNat * NANOS_PER_SEC ≤ t.ev.env.monotonic →
      (LeaseOver keccak256 t.post ↔ t.pre.state = .mining) := by
  intro t ht hop lease hcur hover
  have hrun := Run.trace (perform keccak256) (started config base difficulty env) events
  have htied : Tied t.pre := by
    refine (hrun.inv (I := Tied) ?_ (tied_started config base difficulty env)).2.1 t ht
    rintro m e m' rfl hI
    exact hI.step (perform_effect e)
  have hpost : t.post = t.pre.watchdogTick t.ev.env := by
    rw [show t.post = perform keccak256 t.pre t.ev from hrun.step_of_mem ht]
    simp [perform, hop]
  have hexp : t.pre.leases.isExpired t.ev.env.monotonic = true := by
    have hd : 0 < lease.durationSec :=
      lt_of_lt_of_le (by decide) (htied.held lease hcur).1.1
    rw [show t.pre.leases = ⟨some lease⟩ from congrArg LeaseManager.mk hcur]
    exact (LeaseManager.isExpired_iff hd).2 hover
  rcases @watchdogTick_cases t.pre t.ev.env with
    ⟨hm, -, h⟩ | ⟨he, hl, -, -⟩ | ⟨-, hne, h⟩
  · refine ⟨fun _ => hm, fun _ => ?_⟩
    rw [hpost, h]
    exact leaseOver_of_free (by simp) (by simp)
  · refine ⟨fun hover => ?_, fun hm => by simp [he] at hm⟩
    have := hover.free
    rw [hpost, hl, hcur] at this
    cases this
  · refine ⟨fun hover => ?_, fun hm => absurd ⟨hm, hexp⟩ hne⟩
    have := hover.free
    rw [hpost, h, hcur] at this
    cases this

def assignMinute : PlatformEvent := ⟨.assignTask minuteTask, ⟨0, true⟩⟩

def tickAtMinute : PlatformEvent := ⟨.watchdogTick, ⟨60 * NANOS_PER_SEC, true⟩⟩

/-- A lease of one minute is over at the tick of its sixtieth second. -/
theorem lease_over_at_minute :
    LeaseOver flatKeccak
      ((freshManager.perform flatKeccak assignMinute).perform flatKeccak tickAtMinute) := by
  have h := tick_ends_lease_iff_mining flatKeccak ⟨"rig-1", operatorBase.userAddress, []⟩
    operatorBase 60 ⟨0, true⟩ [assignMinute, tickAtMinute]
    ⟨freshManager.perform flatKeccak assignMinute, tickAtMinute,
      (freshManager.perform flatKeccak assignMinute).perform flatKeccak tickAtMinute⟩
    (List.mem_cons_of_mem _ List.mem_cons_self) rfl (minuteTask.lease 0) (by decide)
    (by decide)
  exact h.2 (by decide)

/-- The minute is over, but a rejected registration moved the rig out of `mining`. -/
def tickAfterReject : List PlatformEvent :=
  [assignMinute, ⟨.registerAck ⟨false⟩, ⟨NANOS_PER_SEC, true⟩⟩, tickAtMinute]

/-- The tick at the end of the lease leaves it held, the rig mining for its consumer, and
the next well-formed task ends in `error`. -/
theorem lease_outlives_tick :
    let m := tickAfterReject.foldl (perform flatKeccak) freshManager
    m.leases.current = some (minuteTask.lease 0) ∧
    (minuteTask.lease 0).startedAt + (minuteTask.lease 0).durationSec.toNat * NANOS_PER_SEC ≤
      60 * NANOS_PER_SEC ∧
    m.coordinator.context.mode = .platformMining ∧ m.state = .available ∧
    (perform flatKeccak m ⟨.assignTask minuteTask, ⟨61 * NANOS_PER_SEC, true⟩⟩).state = .error ∧
    ¬ LeaseOver flatKeccak m := by
  refine ⟨by decide, by decide, by decide, by decide,
    by decide, fun h => ?_⟩
  exact absurd h.free (by decide)

end TreeMiner
