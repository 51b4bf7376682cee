import Mathlib.Data.Rat.Floor
import TreeMiner.Core.Prim

/-! The circuit breaker of the `/verify` path. Each operation takes the monotonic
reading and the jitter sample it uses; the source's floats are rationals. -/

namespace TreeMiner

inductive BreakerState
  | closed
  | opened
  | halfOpen
deriving DecidableEq, Repr

structure BreakerConfig where
  failureThreshold : Int
  probeBaseMs : Int
  probeCapMs : Int
  probeCapXuniMs : Int
  jitterFraction : ℚ
deriving DecidableEq

def BreakerConfig.default : BreakerConfig := ⟨3, 5000, 60000, 5000, 1 / 5⟩

structure CircuitBreaker where
  cfg : BreakerConfig
  state : BreakerState
  consecutiveFailures : Int
  probeIntervalMs : Int
  nextProbeAtMs : Int
  admissionAvailable : Bool
  xuniPressure : Bool
deriving DecidableEq

/-- `x as i64` of a rational: toward zero, saturating. -/
def truncI64 (x : ℚ) : Int := clampI64 (x.num.tdiv x.den)

namespace CircuitBreaker

def new (cfg : BreakerConfig) : CircuitBreaker := ⟨cfg, .closed, 0, 0, 0, false, false⟩

def activeCapMs (b : CircuitBreaker) : Int :=
  if b.xuniPressure then min b.cfg.probeCapMs b.cfg.probeCapXuniMs else b.cfg.probeCapMs

def scheduleProbe (b : CircuitBreaker) (clock : Int) (jitter : ℚ) : CircuitBreaker :=
  let cap := b.activeCapMs
  let base := min b.probeIntervalMs cap
  let delay := base + truncI64 (jitter * b.cfg.jitterFraction * base)
  let delay := if b.xuniPressure then min delay cap else delay
  { b with nextProbeAtMs := clock + delay }

/-- `open` -/
def trip (b : CircuitBreaker) (clock : Int) (jitter : ℚ) : CircuitBreaker :=
  { b with state := .opened, admissionAvailable := false }.scheduleProbe clock jitter

def probeDue (b : CircuitBreaker) (clock : Int) : Bool :=
  b.state = .opened && decide (clock ≥ b.nextProbeAtMs)

def onProbeSuccess (b : CircuitBreaker) : CircuitBreaker :=
  if b.state ≠ .opened then b else { b with state := .halfOpen, admissionAvailable := true }

def onProbeFailure (b : CircuitBreaker) (clock : Int) (jitter : ℚ) : CircuitBreaker :=
  if b.state ≠ .opened then b
  else { b with probeIntervalMs := min (b.probeIntervalMs * 2) b.cfg.probeCapMs }.scheduleProbe
    clock jitter

def tryAdmit (b : CircuitBreaker) : Bool × CircuitBreaker :=
  match b.state with
  | .closed => (true, b)
  | .halfOpen =>
    if b.admissionAvailable then (true, { b with admissionAvailable := false }) else (false, b)
  | .opened => (false, b)

def onVerifySuccess (b : CircuitBreaker) : CircuitBreaker :=
  { b with
    state := .closed
    consecutiveFailures := 0
    probeIntervalMs := b.cfg.probeBaseMs
    admissionAvailable := false }

def onVerifyTransportFailure (b : CircuitBreaker) (clock : Int) (jitter : ℚ) : CircuitBreaker :=
  match b.state with
  | .halfOpen =>
    let interval := min (max b.probeIntervalMs b.cfg.probeBaseMs * 2) b.cfg.probeCapMs
    { b with probeIntervalMs := interval }.trip clock jitter
  | .closed =>
    let b := { b with consecutiveFailures := b.consecutiveFailures + 1 }
    if b.consecutiveFailures ≥ b.cfg.failureThreshold then
      { b with probeIntervalMs := b.cfg.probeBaseMs }.trip clock jitter
    else b
  | .opened => b

def onVerifyInconclusive (b : CircuitBreaker) : CircuitBreaker :=
  let b := { b with consecutiveFailures := 0 }
  if b.state = .halfOpen then { b with admissionAvailable := true } else b

def setXuniPressure (b : CircuitBreaker) (eligibleXuniExists : Bool) (clock : Int) :
    CircuitBreaker :=
  let was := b.xuniPressure
  let b := { b with xuniPressure := eligibleXuniExists }
  if !was && b.xuniPressure && b.state = .opened then
    { b with nextProbeAtMs := min b.nextProbeAtMs (clock + b.activeCapMs) }
  else b

/-- Outside a half-open breaker the latch decides nothing; inside, it must be free. -/
def Unlatched (b : CircuitBreaker) : Prop := b.state = .halfOpen → b.admissionAvailable = true

variable {b : CircuitBreaker} {clock : Int} {jitter : ℚ}

@[simp] theorem trip_state : (b.trip clock jitter).state = .opened := by
  unfold trip scheduleProbe
  rfl

theorem unlatched_of_ne (h : b.state ≠ .halfOpen) : b.Unlatched := fun hs => absurd hs h

theorem Unlatched.congr {b' : CircuitBreaker} (h : b.Unlatched) (hs : b'.state = b.state)
    (ha : b'.admissionAvailable = b.admissionAvailable) : b'.Unlatched := by
  intro hb
  rw [ha]
  exact h (hs ▸ hb)

@[simp] theorem setXuniPressure_state (p : Bool) : (b.setXuniPressure p clock).state = b.state := by
  unfold setXuniPressure
  dsimp only
  split_ifs <;> rfl

@[simp] theorem setXuniPressure_admission (p : Bool) :
    (b.setXuniPressure p clock).admissionAvailable = b.admissionAvailable := by
  unfold setXuniPressure
  dsimp only
  split_ifs <;> rfl

@[simp] theorem onVerifySuccess_state : b.onVerifySuccess.state = .closed := rfl

theorem onVerifySuccess_unlatched : b.onVerifySuccess.Unlatched := by
  intro h; cases h

theorem onVerifyInconclusive_unlatched : b.onVerifyInconclusive.Unlatched := by
  intro h
  unfold onVerifyInconclusive at h ⊢
  by_cases hs : b.state = .halfOpen
  · simp [hs]
  · simp [hs] at h

/-- Whatever state a transport failure finds, it does not leave a half-open breaker. -/
theorem onVerifyTransportFailure_ne : (b.onVerifyTransportFailure clock jitter).state ≠
    .halfOpen := by
  unfold onVerifyTransportFailure
  cases hs : b.state with
  | halfOpen => simp
  | closed =>
    dsimp only
    split_ifs <;> simp
  | opened => simp [hs]

theorem onProbeSuccess_unlatched (h : b.Unlatched) : b.onProbeSuccess.Unlatched := by
  unfold onProbeSuccess
  split_ifs
  · exact h
  · exact fun _ => rfl

@[simp] theorem onProbeFailure_state : (b.onProbeFailure clock jitter).state = b.state := by
  unfold onProbeFailure scheduleProbe
  split_ifs <;> rfl

@[simp] theorem onProbeFailure_admission :
    (b.onProbeFailure clock jitter).admissionAvailable = b.admissionAvailable := by
  unfold onProbeFailure scheduleProbe
  split_ifs <;> rfl

/-- Admission never moves the state. -/
@[simp] theorem tryAdmit_state : b.tryAdmit.2.state = b.state := by
  unfold tryAdmit
  cases hb : b.state with
  | halfOpen =>
    dsimp only
    split_ifs <;> simp [hb]
  | closed => simp [hb]
  | opened => simp [hb]

/-- With the latch free, admission is refused only by an open breaker. -/
theorem tryAdmit_of_unlatched (h : b.Unlatched) (hs : b.state ≠ .opened) :
    b.tryAdmit.1 = true := by
  unfold tryAdmit
  cases hb : b.state with
  | closed => rfl
  | halfOpen => simp [h hb]
  | opened => exact absurd hb hs

end CircuitBreaker

end TreeMiner
