import TreeMiner.Platform.LeaseSafety

/-! The owner's pause. The pause flag follows the transitions of the state machine: the
edges into `idle` set it, unless they come from `error`, and those into `available` clear
it, whoever asked for them. -/

namespace TreeMiner

open Lib

/-- A manager, and whether a pause it has handled while running is in force. -/
structure PauseWatch where
  mgr : PlatformManager
  inForce : Bool
deriving DecidableEq, Repr

inductive PauseEvent
  | command (e : PlatformEvent)
  /-- the signed `shutdown`, which stops the manager -/
  | shutdown (env : PlatformEnv)
deriving DecidableEq, Repr

/-- A lease is held, and the release names it or leaves the name empty. -/
def Release.Ends (release : Release) (m : PlatformManager) : Prop :=
  ∃ lease, m.leases.current = some lease ∧ (release.leaseId.isEmpty = true ∨
    isSafeIdentifier release.leaseId 1 MAX_LEASE_ID_LEN = true ∧ lease.leaseId = release.leaseId)

namespace PauseWatch

/-- A pause is in force until a resume is handled or the manager stops. -/
def step (keccak256 : List UInt8 → Vector UInt8 32) (s : PauseWatch) : PauseEvent → PauseWatch
  | .command e =>
    ⟨s.mgr.perform keccak256 e,
      match e.op with
      | .pause => s.mgr.running
      | .resume => false
      | _ => s.inForce⟩
  | .shutdown env => ⟨s.mgr.stop env, false⟩

def Holds (s : PauseWatch) : Prop := s.inForce = true → s.mgr.miningPaused = true

instance : DecidablePred Holds := fun _ => inferInstanceAs (Decidable (_ → _))

/-- The event meets the pause where the state machine keeps it: it arrives in a serving
state or finds the flag up, and what follows does not make the rig available. -/
def KeepsPause (s : PauseWatch) : PauseEvent → Prop
  | .command ⟨.pause, _⟩ => s.mgr.running = true → s.mgr.state = .idle ∨ s.mgr.state = .error →
      s.mgr.miningPaused = true
  | .command ⟨.registerAck ack, _⟩ => s.inForce = true → ack.accepted = false
  | .command ⟨.release release, _⟩ => s.inForce = true → ¬ release.Ends s.mgr
  | .command ⟨.watchdogTick, env⟩ => s.inForce = true → s.mgr.state = .error → env.connected = false
  | _ => True

end PauseWatch

namespace PlatformManager

variable {m : PlatformManager} {env : PlatformEnv} {new : PlatformState}

@[simp] theorem transitionTo_running : (m.transitionTo env new).running = m.running := by
  unfold transitionTo
  split_ifs <;> rfl

theorem transitionTo_paused (h : m.state ≠ new) : (m.transitionTo env new).miningPaused =
    pausedAfter m.running m.miningPaused m.state new := by
  unfold transitionTo
  rw [if_neg h]

theorem transitionTo_self (h : m.state = new) : m.transitionTo env new = m := by
  unfold transitionTo
  rw [if_pos h]

/-- Whatever the old state, an edge into `available` clears the flag of a running manager. -/
theorem transitionTo_available (hr : m.running = true) (h : m.state ≠ .available) :
    (m.transitionTo env .available).miningPaused = false := by
  rw [transitionTo_paused h, hr]
  cases m.state <;> rfl

/-- Into `idle`, the flag goes up unless the rig was idle or in error. -/
theorem transitionTo_idle_paused (hr : m.running = true) :
    (m.transitionTo env .idle).miningPaused =
      if m.state = .idle ∨ m.state = .error then m.miningPaused else true := by
  by_cases hs : m.state = .idle
  · rw [transitionTo_self hs, if_pos (Or.inl hs)]
  · rw [transitionTo_paused hs, hr]
    cases h : m.state <;> simp_all [pausedAfter]

theorem handleRelease_ends {release : Release} (h : release.Ends m) :
    (m.handleRelease release env).2 =
      ((m.transitionTo env .completed).endLease.switchToSelfMining).transitionTo env .available := by
  obtain ⟨lease, hcur, hname⟩ := h
  unfold handleRelease
  simp only [hcur]
  rcases hname with hempty | ⟨hsafe, hid⟩
  · simp [hempty]
  · simp [hsafe, hid]

theorem handleRelease_refused {release : Release} (h : ¬ release.Ends m) :
    (m.handleRelease release env).2 = m := by
  unfold handleRelease
  split_ifs with hid
  · rfl
  cases hcur : m.leases.current with
  | none => rfl
  | some lease =>
    dsimp only
    split_ifs with hname
    · rfl
    · refine absurd ⟨lease, hcur, ?_⟩ h
      cases hempty : release.leaseId.isEmpty with
      | true => exact Or.inl rfl
      | false =>
        simp only [hempty, Bool.not_false, Bool.true_and, Bool.not_eq_true', Bool.not_eq_false,
          bne_iff_ne, ne_eq, not_not] at hid hname
        exact Or.inr ⟨hid, hname⟩

end PlatformManager

namespace PauseWatch

open PlatformManager

variable {keccak256 : List UInt8 → Vector UInt8 32}

/-- The manager runs, serves nobody and has the flag up. -/
structure OutOfService (m : PlatformManager) : Prop where
  running : m.running = true
  paused : m.miningPaused = true
  state : m.state = .idle ∨ m.state = .error

namespace OutOfService

variable {m : PlatformManager} {env : PlatformEnv}

theorem ne_available (h : OutOfService m) : m.state ≠ .available := by
  rcases h.state with hs | hs <;> simp [hs]

theorem rejected (h : OutOfService m) {ack : RegisterAck} (hack : ack.accepted = false) :
    OutOfService (m.handleRegisterAck ack env).2 := by
  unfold handleRegisterAck
  rw [if_neg (by simp [hack])]
  refine ⟨by simp [h.running], ?_, Or.inr (by simp)⟩
  rcases h.state with hs | hs
  · rw [transitionTo_paused (by simp [hs]), hs]
    exact h.paused
  · rw [transitionTo_self hs]
    exact h.paused

theorem assignTask (h : OutOfService m) (task : AssignTask) :
    OutOfService (m.handleAssignTask keccak256 task env).2 := by
  unfold handleAssignTask
  rw [if_pos h.ne_available]
  exact h

theorem setConfig (h : OutOfService m) (config : SetConfig) :
    OutOfService (m.handleSetConfig keccak256 config).2 := by
  unfold handleSetConfig
  split_ifs
  · exact h
  · exact h
  · exact h
  · exact h
  · cases config.difficulty <;> exact ⟨h.running, h.paused, h.state⟩

/-- A tick without a broker link stops at `idle`. -/
theorem watchdogTick (h : OutOfService m) (hc : m.state = .error → env.connected = false) :
    OutOfService (m.watchdogTick env) := by
  unfold PlatformManager.watchdogTick
  rcases h.state with hs | hs
  · simp only [hs, reduceCtorEq, false_and, if_false]
    exact h
  · simp only [hs, hc hs, reduceCtorEq, false_and, if_false, if_true, Bool.false_eq_true]
    refine ⟨by simp [h.running], ?_, Or.inl (by simp)⟩
    rw [transitionTo_idle_paused h.running, if_pos (Or.inr hs)]
    exact h.paused

end OutOfService

theorem handlePause_running (m : PlatformManager) (env : PlatformEnv) :
    (m.handlePause env).2.running = m.running := by
  rcases @handlePause_cases m env with ⟨-, h⟩ | ⟨-, h⟩ <;> rw [h, transitionTo_running]
  rfl

theorem handlePause_paused (m : PlatformManager) (env : PlatformEnv) (hr : m.running = true) :
    (m.handlePause env).2.miningPaused =
      if m.state = .idle ∨ m.state = .error then m.miningPaused else true := by
  rcases @handlePause_cases m env with ⟨-, h⟩ | ⟨-, h⟩
  · rw [h]
    exact transitionTo_idle_paused hr
  · rw [h]
    exact transitionTo_idle_paused (m := m.endLease.switchToSelfMining) hr

/-- A pause in force finds the manager out of service. -/
def InForce (s : PauseWatch) : Prop := s.inForce = true → OutOfService s.mgr

theorem step_inForce {s : PauseWatch} (e : PauseEvent) (h : InForce s) (hk : s.KeepsPause e) :
    InForce (s.step keccak256 e) := by
  rcases e with ⟨op, env⟩ | env
  · cases op with
    | pause =>
      intro hr
      refine ⟨(handlePause_running _ _).trans hr, ?_, Or.inl ?_⟩
      · refine (handlePause_paused s.mgr env hr).trans ?_
        split_ifs with hs
        · exact hk hr hs
        · rfl
      · change (s.mgr.handlePause env).2.state = .idle
        simp [handlePause]
    | resume => exact fun hf => by cases hf
    | registerAck ack => exact fun hf => (h hf).rejected (hk hf)
    | assignTask task => exact fun hf => (h hf).assignTask task
    | release release =>
      intro hf
      change OutOfService (s.mgr.handleRelease release env).2
      rw [handleRelease_refused (hk hf)]
      exact h hf
    | setConfig config => exact fun hf => (h hf).setConfig config
    | watchdogTick => exact fun hf => (h hf).watchdogTick (hk hf)
  · exact fun hf => by cases hf

/-- An event that does not keep the pause leaves it in force with the flag down. -/
theorem not_holds_of_not_keeps {s : PauseWatch} (e : PauseEvent) (h : InForce s)
    (hk : ¬ s.KeepsPause e) : ¬ (s.step keccak256 e).Holds := by
  intro hp
  rcases e with ⟨op, env⟩ | env
  · cases op with
    | pause =>
      apply hk
      intro hr hs
      have hflag : (s.mgr.handlePause env).2.miningPaused = true := hp hr
      rwa [handlePause_paused s.mgr env hr, if_pos hs] at hflag
    | registerAck ack =>
      apply hk
      intro hf
      have hflag : (s.mgr.handleRegisterAck ack env).2.miningPaused = true := hp hf
      cases hack : ack.accepted with
      | false => rfl
      | true =>
        have hdown : (s.mgr.handleRegisterAck ack env).2.miningPaused = false := by
          unfold handleRegisterAck
          rw [if_pos hack, if_pos (h hf).ne_available]
          exact transitionTo_available (h hf).running (h hf).ne_available
        rw [hdown] at hflag
        cases hflag
    | release release =>
      apply hk
      intro hf hends
      have hflag : (s.mgr.handleRelease release env).2.miningPaused = true := hp hf
      rw [handleRelease_ends hends, transitionTo_available] at hflag
      · cases hflag
      · simp [endLease, switchToSelfMining, (h hf).running]
      · simp
    | watchdogTick =>
      apply hk
      intro hf he
      have hflag : (s.mgr.watchdogTick env).miningPaused = true := hp hf
      cases hc : env.connected with
      | false => rfl
      | true =>
        have hdown : (s.mgr.watchdogTick env).miningPaused = false := by
          unfold PlatformManager.watchdogTick
          simp only [he, hc, reduceCtorEq, false_and, if_false, if_true]
          exact transitionTo_available (by simp [sendRegistration, publish, (h hf).running])
            (by simp)
        rw [hdown] at hflag
        cases hflag
    | resume => exact hk trivial
    | assignTask task => exact hk trivial
    | setConfig config => exact hk trivial
  · exact hk trivial

end PauseWatch

open PlatformManager PauseWatch

/-- Over every run of commands and ticks from a started manager, a handled pause has the
flag up until a resume is handled or the manager stops, if and only if every event keeps
the pause. -/
theorem pause_holds_iff (keccak256 : List UInt8 → Vector UInt8 32) (config : PlatformConfig)
    (base : MiningIdentity) (difficulty : Int) (env : PlatformEnv) (events : List PauseEvent) :
    let s : PauseWatch := ⟨started config base difficulty env, false⟩
    (∀ x ∈ visited s (trace (PauseWatch.step keccak256) s events), x.Holds) ↔
      ∀ t ∈ trace (PauseWatch.step keccak256) s events, t.pre.KeepsPause t.ev := by
  intro s
  refine (Run.trace (PauseWatch.step keccak256) s events).forall_iff (I := InForce)
    (fun x hx hf => (hx hf).paused) ?_ ?_ (fun hf => by cases hf)
  · rintro ⟨s, e, s'⟩ hstep hI hk
    dsimp only at hstep hI
    subst hstep
    exact step_inForce e hI hk
  · rintro ⟨s, e, s'⟩ hstep hI hk
    dsimp only at hstep hI
    subst hstep
    exact not_holds_of_not_keeps e hI hk

/-- The owner pauses the rig; the platform's acknowledgement arrives after. -/
def ackAfterPause : List PauseEvent :=
  [.command ⟨.pause, ⟨0, true⟩⟩, .command ⟨.registerAck ⟨true⟩, ⟨NANOS_PER_SEC, true⟩⟩]

/-- A rejected registration first: the pause comes in `error`. -/
def pauseInError : List PauseEvent :=
  [.command ⟨.registerAck ⟨false⟩, ⟨0, true⟩⟩, .command ⟨.pause, ⟨NANOS_PER_SEC, true⟩⟩]

theorem pause_undone :
    (¬ ∀ x ∈ visited ⟨freshManager, false⟩
      (trace (PauseWatch.step flatKeccak) ⟨freshManager, false⟩ ackAfterPause), x.Holds) ∧
    ¬ ∀ x ∈ visited ⟨freshManager, false⟩
      (trace (PauseWatch.step flatKeccak) ⟨freshManager, false⟩ pauseInError), x.Holds := by
  decide

end TreeMiner
