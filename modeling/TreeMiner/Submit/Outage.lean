import TreeMiner.Submit.Admission
import TreeMiner.Submit.Interleave

/-! The XUNI cap on the probe schedule. The pressure flag is written where a submission is
selected, and an open breaker selects none; so the cap binds the outages that found the
XUNI before they began. -/

namespace TreeMiner

open Lib SubmissionManager

/-- What the miner's threads do to the manager, one step at a time. -/
inductive Beat
  /-- a `run_once`, with the clocks as it ends -/
  | step (env : StepEnv) (mono wall : Int)
  | found (payload : FoundPayload)
  | polled (difficulty : UInt32) (mono : Int)

/-- The manager and the monotonic clock at the end of its last step. -/
structure Outage where
  mgr : SubmissionManager
  now : Int

namespace Outage

def beat (cfg : Config) (s : Outage) : Beat → Outage
  | .step env mono _ => ⟨stepMgr cfg s.mgr env, mono⟩
  | .found payload => ⟨s.mgr.setFinds (s.mgr.journal.finds.append payload).2, s.now⟩
  | .polled difficulty mono => ⟨s.mgr.observeDifficulty cfg difficulty mono, s.now⟩

/-- The monotonic clock does not go back, from one step's end to the next and within. -/
def Timely (s : Outage) : Beat → Prop
  | .step env mono _ => s.now ≤ mono ∧ env.mono .schedule ≤ mono
  | .found _ => True
  | .polled _ _ => True

/-- In an open window, on the server's clock, a XUNI is pending and due. -/
def XuniDue (m : SubmissionManager) (wall : Int) : Prop :=
  (xuniWindowAt (wall + m.serverOffsetMs.getD 0)).isOpen = true ∧
    ∃ r ∈ m.journal.finds.rows, r.status = .pending ∧ r.payload.kind = .xuni ∧
      r.nextAttemptAt.all (fun at' => decide (at' ≤ isoUtc wall)) = true

/-- A step that ends with the breaker open and a XUNI due has the next probe scheduled
within the XUNI cap. -/
def Capped (cfg : Config) (s' : Outage) : Beat → Prop
  | .step _ mono wall => s'.mgr.breaker.state = .opened → XuniDue s'.mgr wall →
      s'.mgr.breaker.nextProbeAtMs ≤ mono + cfg.breaker.probeCapXuniMs
  | .found _ => True
  | .polled _ _ => True

/-- The step's own fetch for submission finds a XUNI. -/
def fetchesXuni (cfg : Config) (env : StepEnv) (m : SubmissionManager) : Bool :=
  let (window, m) := m.trackWindow cfg (env.wall .window)
  window.isOpen && !(m.journal.finds.fetchEligibleOfKind .xuni (isoUtc (env.wall .nowIso))
    cfg.fetchLimit).isEmpty

/-- The breaker was told of the XUNI: before a step that starts open, by the fetch of a
step that opens it. -/
def PressureKnown (cfg : Config) (s s' : Outage) : Beat → Prop
  | .step env _ wall => s'.mgr.breaker.state = .opened → XuniDue s'.mgr wall →
      if s.mgr.breaker.state = .opened then s.mgr.breaker.xuniPressure = true
      else fetchesXuni cfg env s.mgr = true
  | .found _ => True
  | .polled _ _ => True

instance (m : SubmissionManager) (wall : Int) : Decidable (XuniDue m wall) :=
  inferInstanceAs (Decidable (_ ∧ _))

instance (s : Outage) : (b : Beat) → Decidable (s.Timely b)
  | .step _ _ _ => inferInstanceAs (Decidable (_ ∧ _))
  | .found _ => isTrue trivial
  | .polled _ _ => isTrue trivial

instance (cfg : Config) (s' : Outage) : (b : Beat) → Decidable (Capped cfg s' b)
  | .step _ _ _ => inferInstanceAs (Decidable (_ → _ → _))
  | .found _ => isTrue trivial
  | .polled _ _ => isTrue trivial

instance (cfg : Config) (s s' : Outage) : (b : Beat) → Decidable (PressureKnown cfg s s' b)
  | .step _ _ _ => inferInstanceAs (Decidable (_ → _ → _))
  | .found _ => isTrue trivial
  | .polled _ _ => isTrue trivial

end Outage

/-! ## The breaker's schedule under pressure -/

namespace CircuitBreaker

variable {b : CircuitBreaker} {clock : Int} {jitter : ℚ}

/-- What an operation leaves of the configuration and of the pressure. -/
structure SamePressure (b b' : CircuitBreaker) : Prop where
  cfg : b'.cfg = b.cfg
  xuniPressure : b'.xuniPressure = b.xuniPressure

theorem SamePressure.trans {a b c : CircuitBreaker} (h : SamePressure a b)
    (h' : SamePressure b c) : SamePressure a c :=
  ⟨h'.cfg.trans h.cfg, h'.xuniPressure.trans h.xuniPressure⟩

/-- Under pressure a probe is never scheduled past the XUNI cap. -/
theorem scheduleProbe_capped (h : b.xuniPressure = true) :
    (b.scheduleProbe clock jitter).nextProbeAtMs ≤ clock + b.cfg.probeCapXuniMs := by
  have hcap : b.activeCapMs ≤ b.cfg.probeCapXuniMs := by
    unfold activeCapMs
    rw [if_pos h]
    exact min_le_right _ _
  unfold scheduleProbe
  simp only [h, if_true]
  have := min_le_right (min b.probeIntervalMs b.activeCapMs +
    truncI64 (jitter * b.cfg.jitterFraction * ↑(min b.probeIntervalMs b.activeCapMs))) b.activeCapMs
  omega

theorem tryAdmit_same : SamePressure b b.tryAdmit.2 := by
  unfold tryAdmit
  cases b.state with
  | closed => exact ⟨rfl, rfl⟩
  | halfOpen =>
    dsimp only
    split_ifs <;> exact ⟨rfl, rfl⟩
  | opened => exact ⟨rfl, rfl⟩

theorem onProbeFailure_same : SamePressure b (b.onProbeFailure clock jitter) := by
  unfold onProbeFailure
  split_ifs <;> exact ⟨rfl, rfl⟩

theorem onProbeFailure_capped (hs : b.state = .opened) (h : b.xuniPressure = true) :
    (b.onProbeFailure clock jitter).nextProbeAtMs ≤ clock + b.cfg.probeCapXuniMs := by
  unfold onProbeFailure
  rw [if_neg (by simp [hs])]
  exact scheduleProbe_capped h

theorem onProbeSuccess_same : SamePressure b b.onProbeSuccess := by
  unfold onProbeSuccess
  split_ifs <;> exact ⟨rfl, rfl⟩

theorem onVerifyTransportFailure_same :
    SamePressure b (b.onVerifyTransportFailure clock jitter) := by
  unfold onVerifyTransportFailure
  cases b.state with
  | halfOpen => exact ⟨rfl, rfl⟩
  | closed =>
    dsimp only
    split_ifs <;> exact ⟨rfl, rfl⟩
  | opened => exact ⟨rfl, rfl⟩

/-- The failure that opens the breaker schedules the first probe. -/
theorem onVerifyTransportFailure_capped (hs : b.state ≠ .opened) (h : b.xuniPressure = true)
    (ho : (b.onVerifyTransportFailure clock jitter).state = .opened) :
    (b.onVerifyTransportFailure clock jitter).nextProbeAtMs ≤ clock + b.cfg.probeCapXuniMs := by
  unfold onVerifyTransportFailure at ho ⊢
  cases hb : b.state with
  | halfOpen => exact scheduleProbe_capped h
  | closed =>
    simp only [hb] at ho ⊢
    split_ifs at ho ⊢
    exact scheduleProbe_capped h
  | opened => exact absurd hb hs

theorem onVerifyInconclusive_same : SamePressure b b.onVerifyInconclusive := by
  unfold onVerifyInconclusive
  dsimp only
  split_ifs <;> exact ⟨rfl, rfl⟩

end CircuitBreaker

/-! ## One step -/

namespace SubmissionManager

open CircuitBreaker Outage

variable {cfg : Config} {env : StepEnv} {m : SubmissionManager} {ctx ctx' : StepCtx}

@[simp] theorem setXuniPressure_pressure (b : CircuitBreaker) (p : Bool) (clock : Int) :
    (b.setXuniPressure p clock).xuniPressure = p := by
  unfold setXuniPressure
  dsimp only
  split_ifs <;> rfl

@[simp] theorem setXuniPressure_cfg (b : CircuitBreaker) (p : Bool) (clock : Int) :
    (b.setXuniPressure p clock).cfg = b.cfg := by
  unfold setXuniPressure
  dsimp only
  split_ifs <;> rfl

/-- The pressure a selection reports. -/
theorem selectRecord_pressure (window : XuniWindowState) :
    (selectRecord cfg env window m).2.breaker =
      m.breaker.setXuniPressure (window.isOpen && !(m.journal.finds.fetchEligibleOfKind .xuni
        (isoUtc (env.wall .nowIso)) cfg.fetchLimit).isEmpty) (env.mono .pressure) := by
  unfold selectRecord
  dsimp only
  cases window.isOpen with
  | true =>
    simp only [if_true, Bool.true_and]
    split_ifs <;> rfl
  | false =>
    simp only [Bool.false_eq_true, if_false, Bool.false_and]
    split_ifs <;> rfl

theorem fetchesXuni_congr {m' : SubmissionManager} (h : SameWork m m') :
    fetchesXuni cfg env m' = fetchesXuni cfg env m := by
  unfold fetchesXuni trackWindow
  simp only [h.journal, h.window, h.offset]
  split_ifs <;> simp [setFinds, h.journal]

/-- A submission goes out with the pressure its own fetch reported. -/
theorem submitPost_pressure {f : Inflight} (h : submitPost cfg env ctx = (.ok f, ctx')) :
    ctx'.mgr.breaker.cfg = ctx.mgr.breaker.cfg ∧
      ctx'.mgr.breaker.state = ctx.mgr.breaker.state ∧
      ctx'.mgr.breaker.xuniPressure = fetchesXuni cfg env ctx.mgr := by
  obtain ⟨hwindow, finds, hbooks, -⟩ := @trackWindow_spec cfg ctx.mgr (env.wall .window)
  unfold submitPost at h
  unfold fetchesXuni
  rcases hw : ctx.mgr.trackWindow cfg (env.wall .window) with ⟨window, m⟩
  rw [hw] at hbooks
  have hsel := @selectRecord_pressure cfg env m window
  rcases hs : selectRecord cfg env window m with ⟨r, m'⟩
  rw [hs] at hsel
  simp only [hw, hs] at h hsel
  by_cases hgate : env.mono .gate < ctx.mgr.nextSubmitAllowedMs
  · rw [if_pos hgate] at h
    cases h
  by_cases hquiesce : env.mono .gate < m.quiesceUntilMs
  · rw [if_neg hgate, if_pos hquiesce] at h
    cases h
  rw [if_neg hgate, if_neg hquiesce] at h
  cases r with
  | none => cases h
  | some r =>
    cases htried : m'.breaker.tryAdmit.1 with
    | false =>
      simp only [htried, Bool.not_false, if_true] at h
      cases h
    | true =>
      simp only [htried, Bool.not_true, Bool.false_eq_true, if_false] at h
      obtain ⟨o, ho⟩ := trackServerDate_eq
        (m := { m' with breaker := m'.breaker.tryAdmit.2 }) env.submit (env.wall .submitDate)
      have hb : ctx'.mgr.breaker = m'.breaker.tryAdmit.2 := by
        cases h
        exact congrArg SubmissionManager.breaker ho
      have hsame := @tryAdmit_same m'.breaker
      have hm : m.breaker = ctx.mgr.breaker := by rw [show m = _ from hbooks]; rfl
      rw [hb, hsame.cfg, hsame.xuniPressure, tryAdmit_state, hsel]
      exact ⟨by simp [hm], by simp [hm], by simp⟩

/-- What a step does to the breaker's configuration, pressure and schedule. -/
structure Scheduled (cfg : Config) (env : StepEnv) (b : CircuitBreaker) (m : SubmissionManager)
    (b' : CircuitBreaker) : Prop where
  config : b'.cfg = b.cfg
  told : b'.state = .opened → b'.xuniPressure =
    if b.state = .opened then b.xuniPressure else fetchesXuni cfg env m
  capped : b'.state = .opened → b'.xuniPressure = true →
    b'.nextProbeAtMs ≤ env.mono .schedule + b.cfg.probeCapXuniMs ∨ b' = b

theorem Stepped.scheduled {r : StepResult} (h : Stepped cfg env ctx r ctx') :
    Scheduled cfg env ctx.mgr.breaker ctx.mgr ctx'.mgr.breaker := by
  obtain ⟨hsame, -, -⟩ := @updateMargin_spec cfg env ctx
  cases h with
  | probe r c hopen hp =>
    rcases @probeStep_cases cfg env (updateMargin cfg env ctx) with h | ⟨c1, b, hprobed, hb, h⟩
    · rw [h] at hp
      cases hp
      rw [hsame.breaker]
      exact ⟨rfl, fun _ => (if_pos hopen).symm, fun _ _ => Or.inr rfl⟩
    · rw [h] at hp
      cases hp
      have hb1 : c1.mgr.breaker = ctx.mgr.breaker := hprobed.breaker.trans hsame.breaker
      rw [hb1] at hb
      rcases hb with rfl | rfl
      · have hs : (ctx.mgr.breaker.onProbeSuccess).state = .halfOpen := by
          simp [onProbeSuccess, hopen]
        have hne : (ctx.mgr.breaker.onProbeSuccess).state ≠ .opened := by simp [hs]
        exact ⟨onProbeSuccess_same.cfg, fun ho => absurd ho hne, fun ho => absurd ho hne⟩
      · have hkeep := @onProbeFailure_same ctx.mgr.breaker (env.mono .schedule) env.jitter
        refine ⟨hkeep.cfg, fun _ => ?_, fun _ hpress => Or.inl ?_⟩
        · rw [if_pos hopen]
          exact hkeep.xuniPressure
        · exact onProbeFailure_capped hopen (hkeep.xuniPressure ▸ hpress)
  | early r r' rc c1 c2 hopen hp hc hr =>
    have hb2 := (confirmStep_quiet hc).1
    have hb1 : c1.mgr.breaker.cfg = ctx.mgr.breaker.cfg ∧ c1.mgr.breaker.state ≠ .opened := by
      rw [← hsame.breaker] at hopen ⊢
      obtain ⟨-, finds, hw, -⟩ :=
        @trackWindow_spec cfg (updateMargin cfg env ctx).mgr (env.wall .window)
      cases posted_of_eq hp with
      | paced _ => exact ⟨rfl, hopen⟩
      | held _ =>
        simp only [withMgr_mgr, hw, setFinds]
        exact ⟨trivial, hopen⟩
      | nothing _ p =>
        simp only [withMgr_mgr, windowedMgr_state, ne_eq, hopen, not_false_eq_true, and_true]
        simp [windowedMgr, hw, setFinds]
      | blocked _ p _ =>
        simp only [withBreaker_breaker, tryAdmit_state, windowedMgr_state, ne_eq, hopen,
          not_false_eq_true, and_true, tryAdmit_same.cfg]
        simp [windowedMgr, hw, setFinds]
    rw [hb2]
    exact ⟨hb1.1, fun ho => absurd ho hb1.2, fun ho => absurd ho hb1.2⟩
  | submit f rc c1 c2 c3 hopen hp hrec hc =>
    obtain ⟨hcfg, hstate, hpress⟩ := submitPost_pressure hp
    rw [fetchesXuni_congr hsame] at hpress
    rw [hsame.breaker] at hcfg hstate
    have hhint : (submitHint cfg env f c1).mgr.breaker = c1.mgr.breaker := by
      rcases @submitHint_cases cfg env f c1 with ⟨-, h⟩ | ⟨d, -, h⟩
      · rw [h]
      · exact h.breaker
    rw [(confirmStep_quiet hc).1, hrec.breaker, hhint]
    have hclosed : c1.mgr.breaker.state ≠ .opened := by rw [hstate]; exact hopen
    generalize verifyOutcome f (settle cfg env f).1 = o
    cases o with
    | success =>
      have hne : (reported env c1.mgr.breaker .success).state ≠ .opened := by simp [reported]
      exact ⟨hcfg, fun ho => absurd ho hne, fun ho => absurd ho hne⟩
    | inconclusive =>
      have hne : (reported env c1.mgr.breaker .inconclusive).state ≠ .opened := by
        simp only [reported, onVerifyInconclusive]
        split_ifs <;> exact hclosed
      exact ⟨onVerifyInconclusive_same.cfg.trans hcfg, fun ho => absurd ho hne,
        fun ho => absurd ho hne⟩
    | transportFailure =>
      have hkeep := @onVerifyTransportFailure_same c1.mgr.breaker (env.mono .schedule) env.jitter
      refine ⟨hkeep.cfg.trans hcfg, fun _ => ?_, fun ho hp => Or.inl ?_⟩
      · rw [if_neg hopen, ← hpress]
        exact hkeep.xuniPressure
      · rw [← hcfg]
        exact onVerifyTransportFailure_capped hclosed (hkeep.xuniPressure ▸ hp) ho

theorem stepMgr_scheduled (m : SubmissionManager) :
    Scheduled cfg env m.breaker m (stepMgr cfg m env).breaker := by
  unfold stepMgr
  rcases @runOnce_cases cfg env m with ⟨-, h⟩ | ⟨-, h⟩
  · rw [h]
    exact ⟨rfl, fun ho => (if_pos ho).symm, fun _ _ => Or.inr rfl⟩
  · exact h.scheduled

end SubmissionManager

/-! ## Runs -/

namespace Outage

variable {cfg : Config}

/-- Once told, an open breaker probes within the cap of the last reading. -/
structure Told (cfg : Config) (s : Outage) : Prop where
  config : s.mgr.breaker.cfg = cfg.breaker
  capped : s.mgr.breaker.state = .opened → s.mgr.breaker.xuniPressure = true →
    s.mgr.breaker.nextProbeAtMs ≤ s.now + cfg.breaker.probeCapXuniMs

theorem beat_told {s : Outage} (b : Beat) (ht : s.Timely b) (h : Told cfg s) :
    Told cfg (s.beat cfg b) := by
  cases b with
  | step env mono wall =>
    have hs := @stepMgr_scheduled cfg env s.mgr
    refine ⟨hs.config.trans h.config, fun ho hp => ?_⟩
    obtain ⟨hnow, hsched⟩ := ht
    change (stepMgr cfg s.mgr env).breaker.nextProbeAtMs ≤ mono + cfg.breaker.probeCapXuniMs
    rcases hs.capped ho hp with hle | heq
    · rw [h.config] at hle
      omega
    · have hold := h.capped (heq ▸ ho) (heq ▸ hp)
      rw [heq]
      omega
  | found payload => exact ⟨h.config, h.capped⟩
  | polled difficulty mono =>
    have hb := (@observeDifficulty_spec cfg s.mgr difficulty mono).breaker
    refine ⟨?_, ?_⟩
    · change (s.mgr.observeDifficulty cfg difficulty mono).breaker.cfg = _
      rw [hb]
      exact h.config
    · change (s.mgr.observeDifficulty cfg difficulty mono).breaker.state = _ →
        (s.mgr.observeDifficulty cfg difficulty mono).breaker.xuniPressure = _ →
        (s.mgr.observeDifficulty cfg difficulty mono).breaker.nextProbeAtMs ≤ _
      rw [hb]
      exact h.capped

end Outage

open Outage

/-- In every run of steps, captures and polls from a fresh manager, under a monotonic
clock: as long as the breaker is told of every XUNI it stays open for, a step that ends
with the breaker open and a XUNI due has the next probe within the XUNI cap. -/
theorem xuni_outage_capped (cfg : Config) (journal : Journal) (now : Int) (beats : List Beat)
    (hclock : ∀ t ∈ trace (Outage.beat cfg) ⟨.new cfg journal, now⟩ beats, t.pre.Timely t.ev)
    (hknown : ∀ t ∈ trace (Outage.beat cfg) ⟨.new cfg journal, now⟩ beats,
      PressureKnown cfg t.pre t.post t.ev) :
    ∀ t ∈ trace (Outage.beat cfg) ⟨.new cfg journal, now⟩ beats, Capped cfg t.post t.ev := by
  have hrun := Run.trace (Outage.beat cfg) ⟨.new cfg journal, now⟩ beats
  obtain ⟨-, htold, -⟩ := hrun.inv_of (I := Told cfg)
    (C := fun t => t.pre.Timely t.ev)
    (fun t (hs : t.post = t.pre.beat cfg t.ev) hI ht => hs ▸ beat_told t.ev ht hI)
    ⟨rfl, fun ho => by cases ho⟩ hclock
  intro t ht
  have hs := hrun.step_of_mem ht
  have hpost := beat_told t.ev (hclock t ht) (htold t ht)
  have hk := hknown t ht
  rw [← hs] at hpost
  revert hpost hk hs
  cases t.ev with
  | step env mono wall =>
    intro hs hpost hk ho hdue
    have htrue := (@stepMgr_scheduled cfg env t.pre.mgr).told
    rw [hs] at ho hdue hpost hk ⊢
    refine hpost.capped ho ((htrue ho).trans ?_)
    have := hk ho hdue
    split_ifs at this ⊢ with hopen
    · exact this
    · exact this
  | found payload => exact fun _ _ _ => trivial
  | polled difficulty mono => exact fun _ _ _ => trivial

/-- An outage without an answer: a step at each of the times. -/
def outageAt (times : List Int) : List Beat := times.map fun t => .step (.silent t) t t

def xuniBehindXen11 : Journal := .ofCaptures [.sample "k" .xen11 100, .sample "x" .xuni 100]

/-- From :55 on, the third failure opens the breaker, and a probe fails. -/
def windowOutage : Outage :=
  (outageAt [3300000, 3310000, 3330000, 3335000]).foldl (Outage.beat .default)
    ⟨.new .default xuniBehindXen11, 0⟩

/-- The next probe fails too. -/
def lastProbe : Beat := .step (.silent 3340000) 3340000 3340000

theorem xuni_outage_capped_from_window :
    (windowOutage.beat .default lastProbe).mgr.breaker.state = .opened ∧
      XuniDue (windowOutage.beat .default lastProbe).mgr 3340000 ∧
      Capped .default (windowOutage.beat .default lastProbe) lastProbe := by
  refine ⟨by decide +kernel, by decide +kernel, ?_⟩
  refine xuni_outage_capped .default xuniBehindXen11 0
    (outageAt [3300000, 3310000, 3330000, 3335000] ++ [lastProbe]) (by decide +kernel)
    (by decide +kernel) ⟨windowOutage, lastProbe, windowOutage.beat .default lastProbe⟩ ?_
  rw [trace_append]
  exact List.mem_append_right _ (List.mem_singleton_self _)

/-- The same outage from before :55 on: at :55 a probe fails, and the next is a minute off. -/
theorem probe_past_the_cap :
    let ts := trace (Outage.beat .default) ⟨.new .default xuniBehindXen11, 0⟩
      (outageAt [3195000, 3205000, 3225000, 3230000, 3240000, 3260000, 3300000])
    (∀ t ∈ ts, t.pre.Timely t.ev) ∧ ¬ ∀ t ∈ ts, Capped .default t.post t.ev := by
  decide +kernel

end TreeMiner
