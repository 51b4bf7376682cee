import Mathlib.Tactic.Linarith
import TreeMiner.Lib.Run
import TreeMiner.Submit.Breaker

/-! The breaker's schedule over every sequence of calls: when it opens, how the probe
interval moves within an outage, and how far ahead of the clock a probe is set. -/

namespace TreeMiner

open Lib

/-- What the breaker is told or asked. -/
inductive BreakerEvent
  | tryAdmit
  | verifySuccess
  | transportFailure
  | inconclusive
  | probeSuccess
  | probeFailure
  | pressure (eligibleXuniExists : Bool)
deriving DecidableEq

/-- One call, with the monotonic reading and the jitter sample it may use. -/
structure BreakerCall where
  event : BreakerEvent
  clock : Int
  jitter : ℚ
  jitter_nonneg : 0 ≤ jitter
  jitter_lt_one : jitter < 1

structure BreakerConfig.Sane (cfg : BreakerConfig) : Prop where
  base_pos : 0 < cfg.probeBaseMs
  base_le_cap : cfg.probeBaseMs ≤ cfg.probeCapMs
  xuni_pos : 0 < cfg.probeCapXuniMs
  threshold_pos : 1 ≤ cfg.failureThreshold
  jitter_nonneg : 0 ≤ cfg.jitterFraction

namespace CircuitBreaker

def call (b : CircuitBreaker) (c : BreakerCall) : CircuitBreaker :=
  match c.event with
  | .tryAdmit => b.tryAdmit.2
  | .verifySuccess => b.onVerifySuccess
  | .transportFailure => b.onVerifyTransportFailure c.clock c.jitter
  | .inconclusive => b.onVerifyInconclusive
  | .probeSuccess => b.onProbeSuccess
  | .probeFailure => b.onProbeFailure c.clock c.jitter
  | .pressure p => b.setXuniPressure p c.clock

/-- The event makes the breaker call `schedule_probe`. -/
def Schedules (b : CircuitBreaker) : BreakerEvent → Prop
  | .transportFailure => b.state = .halfOpen ∨
      b.state = .closed ∧ b.cfg.failureThreshold ≤ b.consecutiveFailures + 1
  | .probeFailure => b.state = .opened
  | _ => False

/-- The event turns the pressure on while a probe is waiting. -/
def PullsIn (b : CircuitBreaker) : BreakerEvent → Prop
  | .pressure p => b.state = .opened ∧ b.xuniPressure = false ∧ p = true
  | _ => False

instance (b : CircuitBreaker) : (e : BreakerEvent) → Decidable (b.Schedules e)
  | .transportFailure => inferInstanceAs (Decidable (_ ∨ _))
  | .probeFailure => inferInstanceAs (Decidable (_ = _))
  | .tryAdmit | .verifySuccess | .inconclusive | .probeSuccess | .pressure _ => isFalse id

instance (b : CircuitBreaker) : (e : BreakerEvent) → Decidable (b.PullsIn e)
  | .pressure _ => inferInstanceAs (Decidable (_ ∧ _))
  | .tryAdmit | .verifySuccess | .inconclusive | .probeSuccess | .transportFailure
  | .probeFailure => isFalse id

end CircuitBreaker

/-- A breaker under observation: the transport failures since it last heard of a success or
of a conclusive answer, the reading of the last `schedule_probe`, and the reading that set
the waiting probe (a `schedule_probe`, or the pressure that pulled the probe in). -/
structure Watched where
  breaker : CircuitBreaker
  streak : Int
  scheduledAt : Int
  setAt : Int

namespace Watched

def start (cfg : BreakerConfig) : Watched := ⟨.new cfg, 0, 0, 0⟩

def call (w : Watched) (c : BreakerCall) : Watched where
  breaker := w.breaker.call c
  streak :=
    match c.event with
    | .transportFailure => w.streak + 1
    | .verifySuccess | .inconclusive => 0
    | .tryAdmit | .probeSuccess | .probeFailure | .pressure _ => w.streak
  scheduledAt := if w.breaker.Schedules c.event then c.clock else w.scheduledAt
  setAt := if w.breaker.Schedules c.event ∨ w.breaker.PullsIn c.event then c.clock else w.setAt

end Watched

/-! ## One schedule -/

theorem truncI64_le {x : ℚ} (h : 0 ≤ x) : (truncI64 x : ℚ) ≤ x := by
  have hnum : 0 ≤ x.num := Rat.num_nonneg.2 h
  have hfloor : x.num.tdiv x.den = ⌊x⌋ := by
    rw [Int.tdiv_eq_ediv_of_nonneg hnum, Rat.floor_def']
  have hpos : 0 ≤ ⌊x⌋ := Int.floor_nonneg.2 h
  have hclamp : clampI64 ⌊x⌋ ≤ ⌊x⌋ := by
    unfold clampI64 i64Min
    omega
  calc (truncI64 x : ℚ) = (clampI64 ⌊x⌋ : ℚ) := by rw [truncI64, hfloor]
    _ ≤ (⌊x⌋ : ℚ) := by exact_mod_cast hclamp
    _ ≤ x := Int.floor_le x

namespace CircuitBreaker

variable {b : CircuitBreaker} {clock : Int} {jitter : ℚ}

theorem activeCapMs_le : b.activeCapMs ≤ b.cfg.probeCapMs := by
  unfold activeCapMs
  split_ifs
  · exact min_le_left _ _
  · exact le_rfl

theorem activeCapMs_pos (h : b.cfg.Sane) : 0 < b.activeCapMs := by
  have hcap := h.base_pos.trans_le h.base_le_cap
  unfold activeCapMs
  split_ifs
  · exact lt_min hcap h.xuni_pos
  · exact hcap

theorem activeCapMs_of_pressure (h : b.xuniPressure = true) :
    b.activeCapMs = min b.cfg.probeCapMs b.cfg.probeCapXuniMs := if_pos h

theorem scheduleProbe_interval :
    (b.scheduleProbe clock jitter).probeIntervalMs = b.probeIntervalMs := rfl

/-- The jitter adds at most its fraction of the ceiling. -/
theorem scheduleProbe_le (h : b.cfg.Sane) (hi : 0 ≤ b.probeIntervalMs) (hj : 0 ≤ jitter)
    (hj1 : jitter < 1) : ((b.scheduleProbe clock jitter).nextProbeAtMs : ℚ) ≤
      clock + b.cfg.probeCapMs * (1 + b.cfg.jitterFraction) := by
  have hbase0 : (0 : ℚ) ≤ (min b.probeIntervalMs b.activeCapMs : Int) := by
    exact_mod_cast le_min hi (activeCapMs_pos h).le
  have hbase : ((min b.probeIntervalMs b.activeCapMs : Int) : ℚ) ≤ b.cfg.probeCapMs := by
    exact_mod_cast (min_le_right _ _).trans activeCapMs_le
  unfold scheduleProbe
  dsimp only
  generalize min b.probeIntervalMs b.activeCapMs = base at *
  have hshare : 0 ≤ jitter * b.cfg.jitterFraction * base := by
    have := h.jitter_nonneg
    positivity
  have hjittered : jitter * b.cfg.jitterFraction * base ≤
      b.cfg.jitterFraction * b.cfg.probeCapMs := by
    have hfrac : jitter * b.cfg.jitterFraction ≤ b.cfg.jitterFraction :=
      mul_le_of_le_one_left h.jitter_nonneg hj1.le
    exact mul_le_mul hfrac hbase hbase0 h.jitter_nonneg
  have hdelay : ((base + truncI64 (jitter * b.cfg.jitterFraction * base) : Int) : ℚ) ≤
      b.cfg.probeCapMs * (1 + b.cfg.jitterFraction) := by
    have := truncI64_le hshare
    push_cast
    linarith
  generalize base + truncI64 (jitter * b.cfg.jitterFraction * base) = delay at *
  split_ifs
  · have hmin : ((min delay b.activeCapMs : Int) : ℚ) ≤ delay := by
      exact_mod_cast min_le_left _ _
    push_cast at hmin ⊢
    linarith
  · push_cast
    linarith

theorem scheduleProbe_pressed (h : b.xuniPressure = true) :
    (b.scheduleProbe clock jitter).nextProbeAtMs ≤ clock + b.activeCapMs := by
  unfold scheduleProbe
  dsimp only
  rw [if_pos h]
  exact Int.add_le_add_left (min_le_right _ _) clock

end CircuitBreaker

/-! ## Every run -/

namespace Watched

/-- What every run keeps. -/
structure Sound (cfg : BreakerConfig) (w : Watched) : Prop where
  config : w.breaker.cfg = cfg
  count_le : w.breaker.consecutiveFailures ≤ cfg.failureThreshold
  interval_nonneg : 0 ≤ w.breaker.probeIntervalMs
  interval_le : w.breaker.probeIntervalMs ≤ cfg.probeCapMs
  base_le : w.breaker.state ≠ .closed → cfg.probeBaseMs ≤ w.breaker.probeIntervalMs
  streak : w.breaker.state = .closed →
    w.breaker.consecutiveFailures = w.streak ∧ w.streak < cfg.failureThreshold
  scheduled : w.breaker.state = .opened → (w.breaker.nextProbeAtMs : ℚ) ≤
    w.scheduledAt + cfg.probeCapMs * (1 + cfg.jitterFraction)
  pressed : w.breaker.state = .opened → w.breaker.xuniPressure = true →
    w.breaker.nextProbeAtMs ≤ w.setAt + min cfg.probeCapMs cfg.probeCapXuniMs

variable {cfg : BreakerConfig} {w : Watched} {c : BreakerCall}

theorem start_sound (h : cfg.Sane) : (start cfg).Sound cfg where
  config := rfl
  count_le := show 0 ≤ _ from zero_le_one.trans h.threshold_pos
  interval_nonneg := le_rfl
  interval_le := show 0 ≤ _ from h.base_pos.le.trans h.base_le_cap
  base_le hs := absurd rfl hs
  streak _ := ⟨rfl, h.threshold_pos⟩
  scheduled hs := by cases hs
  pressed hs := by cases hs

/-- Doubling under the cap does not shrink an interval. -/
theorem le_doubled (h : cfg.Sane) {i j : Int} (hbase : cfg.probeBaseMs ≤ i) (hij : i ≤ j)
    (hcap : i ≤ cfg.probeCapMs) : i ≤ min (j * 2) cfg.probeCapMs := by
  have hpos := h.base_pos
  exact le_min (by omega) hcap

/-- A breaker opened, or kept open, by `schedule_probe` at the reading `t`. -/
theorem Sound.scheduleProbe {b : CircuitBreaker} {t n : Int} {j : ℚ} (h : cfg.Sane)
    (hcfg : b.cfg = cfg) (hopen : b.state = .opened)
    (hcount : b.consecutiveFailures ≤ cfg.failureThreshold)
    (hbase : cfg.probeBaseMs ≤ b.probeIntervalMs) (hcap : b.probeIntervalMs ≤ cfg.probeCapMs)
    (hj : 0 ≤ j) (hj1 : j < 1) : Sound cfg ⟨b.scheduleProbe t j, n, t, t⟩ := by
  subst hcfg
  have hi : 0 ≤ b.probeIntervalMs := h.base_pos.le.trans hbase
  refine ⟨rfl, hcount, hi, hcap, fun _ => hbase, ?_, ?_, ?_⟩
  · intro hs
    exact absurd ((show b.state = .closed from hs).symm.trans hopen) (by decide)
  · intro _
    exact CircuitBreaker.scheduleProbe_le h hi hj hj1
  · intro _ hp
    have hpress : b.xuniPressure = true := hp
    rw [← CircuitBreaker.activeCapMs_of_pressure hpress]
    exact CircuitBreaker.scheduleProbe_pressed hpress

theorem tryAdmit_cases (b : CircuitBreaker) :
    b.tryAdmit.2 = b ∨ b.tryAdmit.2 = { b with admissionAvailable := false } := by
  unfold CircuitBreaker.tryAdmit
  cases b.state with
  | closed => exact Or.inl rfl
  | halfOpen =>
    dsimp only
    split_ifs
    · exact Or.inr rfl
    · exact Or.inl rfl
  | opened => exact Or.inl rfl

theorem Sound.tryAdmit (h : w.Sound cfg) (t : Int) (j : ℚ) (hj : 0 ≤ j) (hj1 : j < 1) :
    (w.call ⟨.tryAdmit, t, j, hj, hj1⟩).Sound cfg := by
  have hcall : w.call ⟨.tryAdmit, t, j, hj, hj1⟩ =
      ⟨w.breaker.tryAdmit.2, w.streak, w.scheduledAt, w.setAt⟩ := rfl
  rw [hcall]
  rcases tryAdmit_cases w.breaker with hb | hb
  · rw [hb]
    exact h
  · rw [hb]
    exact ⟨h.config, h.count_le, h.interval_nonneg, h.interval_le, h.base_le, h.streak,
      h.scheduled, h.pressed⟩

theorem Sound.verifySuccess (hcfg : cfg.Sane) (h : w.Sound cfg) (t : Int) (j : ℚ) (hj : 0 ≤ j)
    (hj1 : j < 1) : (w.call ⟨.verifySuccess, t, j, hj, hj1⟩).Sound cfg where
  config := h.config
  count_le := show 0 ≤ _ from zero_le_one.trans hcfg.threshold_pos
  interval_nonneg := show 0 ≤ w.breaker.cfg.probeBaseMs by rw [h.config]; exact hcfg.base_pos.le
  interval_le := show w.breaker.cfg.probeBaseMs ≤ _ by rw [h.config]; exact hcfg.base_le_cap
  base_le hs := absurd rfl hs
  streak _ := ⟨rfl, hcfg.threshold_pos⟩
  scheduled hs := by cases hs
  pressed hs := by cases hs

theorem Sound.inconclusive (hcfg : cfg.Sane) (h : w.Sound cfg) (t : Int) (j : ℚ) (hj : 0 ≤ j)
    (hj1 : j < 1) : (w.call ⟨.inconclusive, t, j, hj, hj1⟩).Sound cfg := by
  have hcall : w.call ⟨.inconclusive, t, j, hj, hj1⟩ =
      ⟨w.breaker.onVerifyInconclusive, 0, w.scheduledAt, w.setAt⟩ := rfl
  have hzero : (0 : Int) ≤ cfg.failureThreshold := zero_le_one.trans hcfg.threshold_pos
  rw [hcall]
  unfold CircuitBreaker.onVerifyInconclusive
  dsimp only
  split_ifs
  · exact ⟨h.config, hzero, h.interval_nonneg, h.interval_le, h.base_le,
      fun _ => ⟨rfl, hcfg.threshold_pos⟩, h.scheduled, h.pressed⟩
  · exact ⟨h.config, hzero, h.interval_nonneg, h.interval_le, h.base_le,
      fun _ => ⟨rfl, hcfg.threshold_pos⟩, h.scheduled, h.pressed⟩

theorem Sound.probeSuccess (h : w.Sound cfg) (t : Int) (j : ℚ) (hj : 0 ≤ j) (hj1 : j < 1) :
    (w.call ⟨.probeSuccess, t, j, hj, hj1⟩).Sound cfg := by
  have hcall : w.call ⟨.probeSuccess, t, j, hj, hj1⟩ =
      ⟨w.breaker.onProbeSuccess, w.streak, w.scheduledAt, w.setAt⟩ := rfl
  rw [hcall]
  unfold CircuitBreaker.onProbeSuccess
  split_ifs with hs
  · exact h
  · have hopen : w.breaker.state ≠ .closed := by simp [not_not.1 hs]
    refine ⟨h.config, h.count_le, h.interval_nonneg, h.interval_le, fun _ => h.base_le hopen,
      ?_, ?_, ?_⟩
    · intro hs'
      cases hs'
    · intro hs'
      cases hs'
    · intro hs'
      cases hs'

theorem Sound.probeFailure (hcfg : cfg.Sane) (h : w.Sound cfg) (t : Int) (j : ℚ) (hj : 0 ≤ j)
    (hj1 : j < 1) : (w.call ⟨.probeFailure, t, j, hj, hj1⟩).Sound cfg := by
  by_cases hs : w.breaker.state = .opened
  · have hcall : w.call ⟨.probeFailure, t, j, hj, hj1⟩ =
        ⟨w.breaker.onProbeFailure t j, w.streak, t, t⟩ := by
      simp [call, CircuitBreaker.call, CircuitBreaker.Schedules, hs]
    have hbase := h.base_le (by simp [hs])
    rw [hcall]
    unfold CircuitBreaker.onProbeFailure
    rw [if_neg (by simp [hs])]
    refine Sound.scheduleProbe hcfg h.config hs h.count_le ?_ ?_ hj hj1
    · dsimp only
      rw [h.config]
      exact hbase.trans (le_doubled hcfg hbase le_rfl h.interval_le)
    · dsimp only
      rw [h.config]
      exact min_le_right _ _
  · have hcall : w.call ⟨.probeFailure, t, j, hj, hj1⟩ = w := by
      simp [call, CircuitBreaker.call, CircuitBreaker.Schedules, CircuitBreaker.PullsIn,
        CircuitBreaker.onProbeFailure, hs]
    rw [hcall]
    exact h

theorem Sound.transportFailure (hcfg : cfg.Sane) (h : w.Sound cfg) (t : Int) (j : ℚ)
    (hj : 0 ≤ j) (hj1 : j < 1) : (w.call ⟨.transportFailure, t, j, hj, hj1⟩).Sound cfg := by
  cases hs : w.breaker.state with
  | halfOpen =>
    have hcall : w.call ⟨.transportFailure, t, j, hj, hj1⟩ =
        ⟨w.breaker.onVerifyTransportFailure t j, w.streak + 1, t, t⟩ := by
      simp [call, CircuitBreaker.call, CircuitBreaker.Schedules, hs]
    have hbase := h.base_le (by simp [hs])
    rw [hcall]
    unfold CircuitBreaker.onVerifyTransportFailure CircuitBreaker.trip
    simp only [hs]
    refine Sound.scheduleProbe hcfg h.config rfl h.count_le ?_ ?_ hj hj1
    · dsimp only
      rw [h.config]
      exact hbase.trans (le_doubled hcfg hbase (le_max_left _ _) h.interval_le)
    · dsimp only
      rw [h.config]
      exact min_le_right _ _
  | closed =>
    obtain ⟨hcount, hlt⟩ := h.streak hs
    by_cases hopens : cfg.failureThreshold ≤ w.breaker.consecutiveFailures + 1
    · have hcall : w.call ⟨.transportFailure, t, j, hj, hj1⟩ =
          ⟨w.breaker.onVerifyTransportFailure t j, w.streak + 1, t, t⟩ := by
        simp [call, CircuitBreaker.call, CircuitBreaker.Schedules, hs, h.config, hopens]
      rw [hcall]
      unfold CircuitBreaker.onVerifyTransportFailure CircuitBreaker.trip
      simp only [hs, h.config, ge_iff_le, hopens, if_true]
      refine Sound.scheduleProbe hcfg rfl rfl ?_ le_rfl hcfg.base_le_cap hj hj1
      dsimp only
      omega
    · have hcall : w.call ⟨.transportFailure, t, j, hj, hj1⟩ =
          ⟨{ w.breaker with consecutiveFailures := w.breaker.consecutiveFailures + 1 },
            w.streak + 1, w.scheduledAt, w.setAt⟩ := by
        simp [call, CircuitBreaker.call, CircuitBreaker.Schedules, CircuitBreaker.PullsIn,
          CircuitBreaker.onVerifyTransportFailure, hs, h.config, hopens]
      rw [hcall]
      refine ⟨h.config, ?_, h.interval_nonneg, h.interval_le, h.base_le, fun _ => ⟨?_, ?_⟩,
        h.scheduled, h.pressed⟩
      · dsimp only
        omega
      · dsimp only
        omega
      · dsimp only
        omega
  | opened =>
    have hcall : w.call ⟨.transportFailure, t, j, hj, hj1⟩ =
        ⟨w.breaker, w.streak + 1, w.scheduledAt, w.setAt⟩ := by
      simp [call, CircuitBreaker.call, CircuitBreaker.Schedules, CircuitBreaker.PullsIn,
        CircuitBreaker.onVerifyTransportFailure, hs]
    rw [hcall]
    refine ⟨h.config, h.count_le, h.interval_nonneg, h.interval_le, h.base_le, ?_, h.scheduled,
      h.pressed⟩
    intro hclosed
    exact absurd ((show w.breaker.state = .closed from hclosed).symm.trans hs) (by decide)

theorem Sound.pressure (h : w.Sound cfg) (p : Bool) (t : Int) (j : ℚ) (hj : 0 ≤ j)
    (hj1 : j < 1) : (w.call ⟨.pressure p, t, j, hj, hj1⟩).Sound cfg := by
  by_cases hin : w.breaker.state = .opened ∧ w.breaker.xuniPressure = false ∧ p = true
  · obtain ⟨hs, hwas, rfl⟩ := hin
    have hcall : w.call ⟨.pressure true, t, j, hj, hj1⟩ =
        ⟨{ w.breaker with
            xuniPressure := true
            nextProbeAtMs := min w.breaker.nextProbeAtMs
              (t + min cfg.probeCapMs cfg.probeCapXuniMs) },
          w.streak, w.scheduledAt, t⟩ := by
      simp [call, CircuitBreaker.call, CircuitBreaker.Schedules, CircuitBreaker.PullsIn,
        CircuitBreaker.setXuniPressure, CircuitBreaker.activeCapMs, hs, hwas, h.config]
    rw [hcall]
    refine ⟨h.config, h.count_le, h.interval_nonneg, h.interval_le, h.base_le, h.streak, ?_, ?_⟩
    · intro _
      -- pulling a probe in moves it no later
      have hmin : ((min w.breaker.nextProbeAtMs
          (t + min cfg.probeCapMs cfg.probeCapXuniMs) : Int) : ℚ) ≤ w.breaker.nextProbeAtMs := by
        exact_mod_cast min_le_left _ _
      exact hmin.trans (h.scheduled hs)
    · intro _ _
      exact min_le_right _ _
  · have hcall : w.call ⟨.pressure p, t, j, hj, hj1⟩ =
        ⟨{ w.breaker with xuniPressure := p }, w.streak, w.scheduledAt, w.setAt⟩ := by
      have hkept : w.breaker.setXuniPressure p t = { w.breaker with xuniPressure := p } := by
        unfold CircuitBreaker.setXuniPressure
        dsimp only
        refine if_neg fun hc => hin ?_
        simp only [Bool.and_eq_true, Bool.not_eq_true', decide_eq_true_eq] at hc
        exact ⟨hc.2, hc.1⟩
      simp [call, CircuitBreaker.call, CircuitBreaker.Schedules, CircuitBreaker.PullsIn, hin, hkept]
    rw [hcall]
    refine ⟨h.config, h.count_le, h.interval_nonneg, h.interval_le, h.base_le, h.streak,
      h.scheduled, ?_⟩
    intro hs hp
    have hwas : w.breaker.xuniPressure = true := by
      by_contra hwas
      exact hin ⟨hs, by simpa using hwas, hp⟩
    exact h.pressed hs hwas

theorem Sound.call (hcfg : cfg.Sane) (h : w.Sound cfg) (c : BreakerCall) :
    (w.call c).Sound cfg := by
  obtain ⟨e, t, j, hj, hj1⟩ := c
  cases e with
  | tryAdmit => exact h.tryAdmit t j hj hj1
  | verifySuccess => exact h.verifySuccess hcfg t j hj hj1
  | transportFailure => exact h.transportFailure hcfg t j hj hj1
  | inconclusive => exact h.inconclusive hcfg t j hj hj1
  | probeSuccess => exact h.probeSuccess t j hj hj1
  | probeFailure => exact h.probeFailure hcfg t j hj hj1
  | pressure p => exact h.pressure p t j hj hj1

theorem calls_sound (hcfg : cfg.Sane) (calls : List BreakerCall) :
    (calls.foldl Watched.call (start cfg)).Sound cfg := by
  refine ((Run.trace call (start cfg) calls).inv (I := Sound cfg) ?_ (start_sound hcfg)).2.2
  rintro w c _ rfl h
  exact h.call hcfg c

/-! ## The three laws -/

/-- A closed breaker opens on the failure that completes the streak, and on nothing else. -/
theorem Sound.opens_iff (h : w.Sound cfg) (hs : w.breaker.state = .closed) (c : BreakerCall) :
    (w.call c).breaker.state = .opened ↔
      c.event = .transportFailure ∧ (w.call c).streak = cfg.failureThreshold := by
  obtain ⟨e, t, j, hj, hj1⟩ := c
  obtain ⟨hcount, hlt⟩ := h.streak hs
  cases e with
  | transportFailure =>
    have hopen : (w.breaker.onVerifyTransportFailure t j).state = .opened ↔
        cfg.failureThreshold ≤ w.breaker.consecutiveFailures + 1 := by
      unfold CircuitBreaker.onVerifyTransportFailure
      simp only [hs, h.config]
      split_ifs with hc
      · exact iff_of_true CircuitBreaker.trip_state hc
      · exact iff_of_false (by simp) hc
    have hbreaker : (w.call ⟨.transportFailure, t, j, hj, hj1⟩).breaker =
        w.breaker.onVerifyTransportFailure t j := rfl
    have hstreak : (w.call ⟨.transportFailure, t, j, hj, hj1⟩).streak = w.streak + 1 := rfl
    rw [hbreaker, hstreak, hopen]
    constructor
    · intro hle
      exact ⟨rfl, by omega⟩
    · rintro ⟨-, heq⟩
      omega
  | tryAdmit => simp [Watched.call, CircuitBreaker.call, hs]
  | verifySuccess => simp [Watched.call, CircuitBreaker.call]
  | inconclusive =>
    simp [Watched.call, CircuitBreaker.call, CircuitBreaker.onVerifyInconclusive, hs]
  | probeSuccess => simp [Watched.call, CircuitBreaker.call, CircuitBreaker.onProbeSuccess, hs]
  | probeFailure => simp [Watched.call, CircuitBreaker.call, hs]
  | pressure p => simp [Watched.call, CircuitBreaker.call, hs]

theorem Sound.interval_mono (hcfg : cfg.Sane) (h : w.Sound cfg) (c : BreakerCall)
    (hs : w.breaker.state ≠ .closed) (hs' : (w.call c).breaker.state ≠ .closed) :
    w.breaker.probeIntervalMs ≤ (w.call c).breaker.probeIntervalMs := by
  obtain ⟨e, t, j, hj, hj1⟩ := c
  have hbase := h.base_le hs
  cases e with
  | tryAdmit =>
    rcases tryAdmit_cases w.breaker with hb | hb
    · simp [Watched.call, CircuitBreaker.call, hb]
    · simp [Watched.call, CircuitBreaker.call, hb]
  | verifySuccess => exact absurd rfl hs'
  | transportFailure =>
    show _ ≤ (w.breaker.onVerifyTransportFailure t j).probeIntervalMs
    unfold CircuitBreaker.onVerifyTransportFailure CircuitBreaker.trip
    cases hb : w.breaker.state with
    | halfOpen =>
      rw [CircuitBreaker.scheduleProbe_interval]
      dsimp only
      rw [h.config]
      exact le_doubled hcfg hbase (le_max_left _ _) h.interval_le
    | closed => exact absurd hb hs
    | opened => exact le_rfl
  | inconclusive =>
    show _ ≤ w.breaker.onVerifyInconclusive.probeIntervalMs
    unfold CircuitBreaker.onVerifyInconclusive
    dsimp only
    split_ifs <;> exact le_rfl
  | probeSuccess =>
    show _ ≤ w.breaker.onProbeSuccess.probeIntervalMs
    unfold CircuitBreaker.onProbeSuccess
    split_ifs <;> exact le_rfl
  | probeFailure =>
    show _ ≤ (w.breaker.onProbeFailure t j).probeIntervalMs
    unfold CircuitBreaker.onProbeFailure
    split_ifs
    · exact le_rfl
    · rw [CircuitBreaker.scheduleProbe_interval]
      dsimp only
      rw [h.config]
      exact le_doubled hcfg hbase le_rfl h.interval_le
  | pressure p =>
    show _ ≤ (w.breaker.setXuniPressure p t).probeIntervalMs
    unfold CircuitBreaker.setXuniPressure
    dsimp only
    split_ifs <;> exact le_rfl

/-- As long as no call closes the breaker, the interval only grows. -/
theorem Sound.outage_mono (hcfg : cfg.Sane) (h : w.Sound cfg) (outage : List BreakerCall)
    (hout : ∀ x ∈ visited w (trace Watched.call w outage), x.breaker.state ≠ .closed) :
    w.breaker.probeIntervalMs ≤ (outage.foldl Watched.call w).breaker.probeIntervalMs := by
  induction outage generalizing w with
  | nil => exact le_rfl
  | cons c cs ih =>
    have hnow : w.breaker.state ≠ .closed := hout w List.mem_cons_self
    have hlater : ∀ x ∈ visited (w.call c) (trace Watched.call (w.call c) cs),
        x.breaker.state ≠ .closed := fun x hx => hout x (mem_visited_cons.2 (Or.inr hx))
    have hnext : (w.call c).breaker.state ≠ .closed := hlater _ List.mem_cons_self
    exact (h.interval_mono hcfg c hnow hnext).trans (ih (h.call hcfg c) hlater)

end Watched

/-- The source counts failures in an `i32` and doubles the interval in an `i64`: neither
leaves its type when the configured bounds leave room for one doubling. -/
theorem breaker_counters_fit {cfg : BreakerConfig} (h : cfg.Sane)
    (hthreshold : cfg.failureThreshold ≤ 2 ^ 31 - 1) (hcap : 2 * cfg.probeCapMs ≤ i64Max)
    (calls : List BreakerCall) :
    let b := (calls.foldl Watched.call (.start cfg)).breaker
    (b.state = .closed → b.consecutiveFailures + 1 ≤ 2 ^ 31 - 1) ∧
      max b.probeIntervalMs b.cfg.probeBaseMs * 2 ≤ i64Max := by
  have hw := Watched.calls_sound h calls
  have hbase := h.base_le_cap
  have hle := hw.interval_le
  refine ⟨fun hs => ?_, ?_⟩
  · obtain ⟨hcount, hlt⟩ := hw.streak hs
    omega
  · rw [hw.config]
    omega

/-- The schedule after any calls: a closed breaker opens exactly at the streak of failures
that is configured; the interval stays under its cap and does not shrink within an outage;
a waiting probe is near the reading of its `schedule_probe`, and under pressure within
the lower cap of the reading that set it. -/
theorem breaker_schedule {cfg : BreakerConfig} (h : cfg.Sane) (calls : List BreakerCall) :
    let w := calls.foldl Watched.call (.start cfg)
    (w.breaker.state = .closed → ∀ c, (w.call c).breaker.state = .opened ↔
      c.event = .transportFailure ∧ (w.call c).streak = cfg.failureThreshold) ∧
    w.breaker.probeIntervalMs ≤ cfg.probeCapMs ∧
    (∀ outage, (∀ x ∈ visited w (trace Watched.call w outage), x.breaker.state ≠ .closed) →
      w.breaker.probeIntervalMs ≤ (outage.foldl Watched.call w).breaker.probeIntervalMs) ∧
    (w.breaker.state = .opened →
      (w.breaker.nextProbeAtMs : ℚ) ≤
        w.scheduledAt + cfg.probeCapMs * (1 + cfg.jitterFraction) ∧
      (w.breaker.xuniPressure = true →
        w.breaker.nextProbeAtMs ≤ w.setAt + min cfg.probeCapMs cfg.probeCapXuniMs)) := by
  have hw := Watched.calls_sound h calls
  refine ⟨hw.opens_iff, hw.interval_le, hw.outage_mono h, ?_⟩
  intro hs
  exact ⟨hw.scheduled hs, hw.pressed hs⟩

theorem default_sane : BreakerConfig.default.Sane :=
  ⟨by decide, by decide, by decide, by decide, by decide +kernel⟩

/-- Three failures and then a XUNI worth saving. -/
def pressedOutage : List BreakerCall :=
  [⟨.transportFailure, 1000, 0, by decide, by decide⟩,
    ⟨.transportFailure, 2000, 0, by decide, by decide⟩,
    ⟨.transportFailure, 3000, 1 / 2, by decide +kernel, by decide +kernel⟩,
    ⟨.pressure true, 4000, 0, by decide, by decide⟩]

theorem breaker_schedule_pressed :
    (pressedOutage.foldl Watched.call (.start .default)).breaker.nextProbeAtMs ≤ 4000 + 5000 :=
  ((breaker_schedule default_sane pressedOutage).2.2.2 (by decide +kernel)).2 (by decide +kernel)

end TreeMiner
