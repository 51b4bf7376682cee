import TreeMiner.Core.Types
import TreeMiner.Submit.Breaker
import TreeMiner.Submit.ClockTime

/-! Ordering and pacing of the drain, and the difficulty headroom mined in. -/

namespace TreeMiner

inductive DifficultyTrend
  | unknown
  | flat
  | rising
  | falling
deriving DecidableEq, Repr

structure DrainConfig where
  startRatePerS : ℚ
  maxRatePerS : ℚ
  minRatePerS : ℚ
  xuniPreemptWindowMs : Int
deriving DecidableEq

def DrainConfig.default : DrainConfig := ⟨1, 4, 1 / 4, 120000⟩

structure DrainScheduler where
  cfg : DrainConfig
  ratePerS : ℚ
deriving DecidableEq

namespace DrainScheduler

def new (cfg : DrainConfig) : DrainScheduler :=
  ⟨cfg, if cfg.startRatePerS ≤ 0 then 1 else cfg.startRatePerS⟩

/-- The scan of `select_next`: the oldest XUNI while the window is open, and the best
XEN11, which is the least `m` when the difficulty rises. -/
def scan (trend : DifficultyTrend) (windowOpen : Bool) :
    Option FindRecord × Option FindRecord → List FindRecord →
      Option FindRecord × Option FindRecord
  | acc, [] => acc
  | (oldestXuni, bestXen11), r :: rs =>
    if r.payload.kind = .xuni then
      scan trend windowOpen
        (if windowOpen && oldestXuni.isNone then some r else oldestXuni, bestXen11) rs
    else
      match bestXen11 with
      | none => scan trend windowOpen (oldestXuni, some r) rs
      | some best =>
        scan trend windowOpen (oldestXuni,
          if trend = .rising ∧ r.payload.memoryCost < best.payload.memoryCost then some r
          else some best) rs

def selectNext (s : DrainScheduler) (eligible : List FindRecord) (trend : DifficultyTrend)
    (window : XuniWindowState) : Option FindRecord :=
  let (oldestXuni, bestXen11) := scan trend window.isOpen (none, none) eligible
  match oldestXuni with
  | some x =>
    if window.msUntilClose ≤ s.cfg.xuniPreemptWindowMs then some x else bestXen11.or (some x)
  | none => bestXen11

def onBreakerClose (s : DrainScheduler) : DrainScheduler := { s with ratePerS := s.cfg.startRatePerS }

def onHealthyRoundTrip (s : DrainScheduler) : DrainScheduler :=
  { s with ratePerS := min (s.ratePerS * 2) s.cfg.maxRatePerS }

def onThrottle (s : DrainScheduler) : DrainScheduler :=
  { s with ratePerS := max (s.ratePerS / 2) s.cfg.minRatePerS }

/-- A zero rate divides to infinity, which saturates. -/
def submitIntervalMs (s : DrainScheduler) : Int :=
  if s.ratePerS = 0 then i64Max else truncI64 (1000 / s.ratePerS)

/-- Both results of the scan come from the list or were there before. -/
theorem scan_mem {trend : DifficultyTrend} {w : Bool} {P : FindRecord → Prop}
    (rs : List FindRecord) (acc : Option FindRecord × Option FindRecord)
    (hrs : ∀ r ∈ rs, P r) (h1 : ∀ r, acc.1 = some r → P r) (h2 : ∀ r, acc.2 = some r → P r) :
    (∀ r, (scan trend w acc rs).1 = some r → P r) ∧
      ∀ r, (scan trend w acc rs).2 = some r → P r := by
  induction rs generalizing acc with
  | nil => exact ⟨h1, h2⟩
  | cons a rs ih =>
    obtain ⟨x, b⟩ := acc
    have ha : P a := hrs a (by simp)
    have hrs' : ∀ r ∈ rs, P r := fun r hr => hrs r (by simp [hr])
    unfold scan
    split_ifs with hk hw
    · exact ih _ hrs' (fun r hr => by cases hr; exact ha) h2
    · exact ih _ hrs' h1 h2
    · cases b with
      | none => exact ih _ hrs' h1 fun r hr => by cases hr; exact ha
      | some best =>
        refine ih _ hrs' h1 fun r hr => ?_
        split_ifs at hr
        · cases hr; exact ha
        · cases hr; exact h2 best rfl

theorem selectNext_mem {s : DrainScheduler} {eligible : List FindRecord}
    {trend : DifficultyTrend} {window : XuniWindowState} {r : FindRecord}
    (h : s.selectNext eligible trend window = some r) : r ∈ eligible := by
  have hmem := @scan_mem trend window.isOpen ((· ∈ eligible)) eligible
    (none, none) (fun _ hr => hr) (fun _ hr => by cases hr) (fun _ hr => by cases hr)
  unfold selectNext at h
  rcases hscan : scan trend window.isOpen (none, none) eligible with ⟨x, b⟩
  rw [hscan] at h hmem
  cases x with
  | none => exact hmem.2 r h
  | some x =>
    dsimp only at h
    split_ifs at h
    · exact hmem.1 r h
    · cases b with
      | none => exact hmem.1 r h
      | some b => exact hmem.2 r h

end DrainScheduler

/-! ## Headroom -/

inductive MarginMode
  | off
  | fixed
  | auto
deriving DecidableEq, Repr

structure MarginConfig where
  mode : MarginMode
  marginKib : Nat
  maxKib : Nat
  adjustPeriodMs : Int
deriving DecidableEq, Repr

def MarginConfig.default : MarginConfig := ⟨.off, 1000, 5000, 300000⟩

structure MarginInputs where
  breakerOpen : Bool
  outageMs : Int
  backlog : Nat
deriving DecidableEq, Repr

/-- Headroom in KiB to add to the mined memory cost. -/
def computeMargin (cfg : MarginConfig) (input : MarginInputs) : Nat :=
  match cfg.mode with
  | .off => 0
  | .fixed => cfg.marginKib
  | .auto =>
    if !input.breakerOpen && input.backlog = 0 then 0
    else
      let steps := if input.breakerOpen && decide (cfg.adjustPeriodMs > 0)
          && decide (input.outageMs > 0) then
        1 + (input.outageMs / cfg.adjustPeriodMs).toNat else 1
      min (min (cfg.marginKib * steps) u64Max) cfg.maxKib

end TreeMiner
