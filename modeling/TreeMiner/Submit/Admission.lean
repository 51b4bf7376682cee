import TreeMiner.Lib.Run
import TreeMiner.Submit.Parts

/-! Breaker admission over runs of `run_once`. The latch of a half-open breaker is taken
inside a step only, and every step gives it back or leaves the half-open state. -/

namespace TreeMiner

open Lib

/-- Every `/verify` of a trace is issued with the breaker not open, is the last one, and
is followed by a report to the breaker. -/
def Reported (trace : List Action) : Prop :=
  ∀ pre rec s post, trace = pre ++ .verify rec s :: post →
    s ≠ .opened ∧ (∀ rec' s', .verify rec' s' ∉ post) ∧ ∃ o, .report o ∈ post

theorem reported_of_silent {trace : List Action} (h : ∀ rec s, .verify rec s ∉ trace) :
    Reported trace := by
  rintro pre rec s post rfl
  exact absurd (by simp) (h rec s)

/-- A trace that opens with its only `/verify` and reports it. -/
theorem reported_of_head {rec : FindRecord} {s : BreakerState} {rest : List Action}
    (hs : s ≠ .opened) (hrest : ∀ rec' s', .verify rec' s' ∉ rest) (hr : ∃ o, .report o ∈ rest) :
    Reported (.verify rec s :: rest) := by
  intro pre rec' s' post h
  cases pre with
  | nil =>
    simp only [List.nil_append, List.cons.injEq, Action.verify.injEq] at h
    obtain ⟨⟨-, rfl⟩, rfl⟩ := h
    exact ⟨hs, hrest, hr⟩
  | cons a pre =>
    simp only [List.cons_append, List.cons.injEq] at h
    exact absurd (by rw [h.2]; simp) (hrest rec' s')

namespace SubmissionManager

variable {cfg : Config} {env : StepEnv} {m : SubmissionManager} {ctx ctx' : StepCtx}

theorem Probed.breaker (h : Probed cfg env ctx ctx') : ctx'.mgr.breaker = ctx.mgr.breaker := by
  induction h with
  | refl => rfl
  | date o _ ih => exact ih
  | note body field d _ _ _ _ ih => rw [ih, (noteDifficulty_spec d _).1.breaker]

theorem Probed.trace (h : Probed cfg env ctx ctx') : ctx'.trace = ctx.trace := by
  induction h with
  | refl => rfl
  | date o _ ih => exact ih
  | note body field d _ _ _ _ ih => rw [ih, (noteDifficulty_spec d _).2.1]

theorem windowedMgr_state (p : Bool) :
    (windowedMgr cfg env m p).breaker.state = m.breaker.state := by
  obtain ⟨-, finds, h, -⟩ := @trackWindow_spec cfg m (env.wall .window)
  simp [windowedMgr, h, setFinds]

theorem windowedMgr_unlatched (p : Bool) (h : m.breaker.Unlatched) :
    (windowedMgr cfg env m p).breaker.Unlatched := by
  obtain ⟨-, finds, hw, -⟩ := @trackWindow_spec cfg m (env.wall .window)
  exact h.congr (windowedMgr_state p) (by simp [windowedMgr, hw, setFinds])

theorem submitHint_trace (f : Inflight) : (submitHint cfg env f ctx).trace = ctx.trace := by
  unfold submitHint
  cases f.c.serverDifficultyHint with
  | none => rfl
  | some d => exact (noteDifficulty_spec d ctx).2.1

/-- The lookups of the confirm step leave breaker and `/verify` alone. -/
theorem Rounds.quiet {lookups : Nat → Lookup} {i : Nat} {batch : List FindRecord}
    (h : Rounds lookups i batch ctx ctx') : ctx'.mgr.breaker = ctx.mgr.breaker ∧
      ∃ l, ctx'.trace = ctx.trace ++ l ∧ ∀ rec s, .verify rec s ∉ l := by
  induction h with
  | done i batch ctx => exact ⟨rfl, [], by simp, by simp⟩
  | round hone _ ih =>
    obtain ⟨hb, l, hl, hv⟩ := ih
    refine ⟨hb.trans hone.breaker, _ :: l, by rw [hl, hone.trace, List.append_assoc]; rfl, ?_⟩
    intro rec s hmem
    rcases List.mem_cons.1 hmem with h | h
    · cases h
    · exact hv rec s h

theorem confirmStep_quiet {rc : StepResult} (h : confirmStep cfg env ctx = (.ok rc, ctx')) :
    ctx'.mgr.breaker = ctx.mgr.breaker ∧
      (∃ l, ctx'.trace = ctx.trace ++ l ∧ ∀ rec s, .verify rec s ∉ l) ∧
      rc ≠ .breakerBlocked := by
  rcases @confirmStep_cases cfg env ctx with h' | ⟨c, h', -, hr⟩
  · rw [h'] at h
    cases h
    exact ⟨rfl, ⟨[], by simp, by simp⟩, by simp⟩
  · rw [h'] at h
    cases h
    exact ⟨hr.quiet.1, hr.quiet.2, by simp⟩

/-- What one step of a manager with a free latch does to breaker and trace. -/
theorem Stepped.admission {r : StepResult} (hfree : ctx.mgr.breaker.Unlatched)
    (htrace : ctx.trace = []) (h : Stepped cfg env ctx r ctx') :
    ctx'.mgr.breaker.Unlatched ∧ Reported ctx'.trace ∧ r ≠ .breakerBlocked ∧
      (ctx.mgr.breaker.state = .opened → ctx'.trace = []) := by
  obtain ⟨hsame, htr, -⟩ := @updateMargin_spec cfg env ctx
  have hfree0 : (updateMargin cfg env ctx).mgr.breaker.Unlatched := by rw [hsame.breaker]; exact hfree
  have htr0 : (updateMargin cfg env ctx).trace = [] := htr.trans htrace
  cases h with
  | probe r c hopen hp =>
    rcases @probeStep_cases cfg env (updateMargin cfg env ctx) with
      h | ⟨c1, b, hprobed, hb, h⟩
    · rw [h] at hp
      cases hp
      exact ⟨hfree0, by rw [htr0]; exact reported_of_silent (by simp), by simp, fun _ => htr0⟩
    · rw [h] at hp
      cases hp
      have hfree1 : c1.mgr.breaker.Unlatched := by rw [hprobed.breaker]; exact hfree0
      have htr1 : c1.trace = [] := hprobed.trace.trans htr0
      refine ⟨?_, by simpa [htr1] using reported_of_silent (by simp), by simp, fun _ => htr1⟩
      rcases hb with rfl | rfl
      · exact CircuitBreaker.onProbeSuccess_unlatched hfree1
      · exact hfree1.congr (by simp) (by simp)
  | early r r' rc c1 c2 hopen hp hc hr =>
    obtain ⟨hb2, ⟨l, hl, hv⟩, hrc⟩ := confirmStep_quiet hc
    have hearly : c1.mgr.breaker.Unlatched ∧ c1.trace = [] ∧ r ≠ .breakerBlocked := by
      cases posted_of_eq hp with
      | paced _ => exact ⟨hfree0, htr0, by simp⟩
      | held _ =>
        obtain ⟨-, finds, hw, -⟩ :=
          @trackWindow_spec cfg ((updateMargin cfg env ctx).mgr) (env.wall .window)
        exact ⟨hfree0.congr (by simp [hw, setFinds]) (by simp [hw, setFinds]), htr0, by simp⟩
      | nothing _ p => exact ⟨windowedMgr_unlatched p hfree0, htr0, by simp⟩
      | blocked _ p hblocked =>
        have hadmit := CircuitBreaker.tryAdmit_of_unlatched
          (@windowedMgr_unlatched cfg env _ p hfree0)
          (by rw [windowedMgr_state, hsame.breaker]; exact hopen)
        rw [hblocked] at hadmit
        cases hadmit
    refine ⟨by rw [hb2]; exact hearly.1, ?_, ?_, fun ho => absurd ho hopen⟩
    · rw [hl, hearly.2.1]
      exact reported_of_silent hv
    · rcases hr with rfl | rfl
      · exact hearly.2.2
      · exact hrc
  | submit f rc c1 c2 c3 hopen hp hrec hc =>
    obtain ⟨hb3, ⟨l, hl, hv⟩, -⟩ := confirmStep_quiet hc
    refine ⟨?_, ?_, by simp, fun ho => absurd ho hopen⟩
    · rw [hb3, hrec.breaker]
      generalize verifyOutcome f (settle cfg env f).1 = o
      cases o with
      | success => exact CircuitBreaker.onVerifySuccess_unlatched
      | transportFailure =>
        exact CircuitBreaker.unlatched_of_ne CircuitBreaker.onVerifyTransportFailure_ne
      | inconclusive => exact CircuitBreaker.onVerifyInconclusive_unlatched
    · cases posted_of_eq hp with
      | sent _ p o _ hb hrow hpending hres hcl =>
        rw [hl, hrec.trace, submitHint_trace]
        simp only [htr0, List.nil_append, List.cons_append, List.append_assoc]
        refine reported_of_head ?_ ?_ ⟨verifyOutcome f (settle cfg env f).1, by simp⟩
        · rw [CircuitBreaker.tryAdmit_state, windowedMgr_state, hsame.breaker]
          exact hopen
        · intro rec' s' hmem
          simp only [List.mem_append, List.mem_cons, reduceCtorEq, false_or] at hmem
          rcases hmem with h | h
          · unfold lookupTrace at h
            split_ifs at h <;> simp at h
          · exact hv rec' s' h

end SubmissionManager

open SubmissionManager

/-- What a step promises about breaker and `/verify`. -/
structure Admits (cfg : Config) (m : SubmissionManager) (env : StepEnv) : Prop where
  reported : Reported (m.runOnce cfg env).2.trace
  openSilent : m.breaker.state = .opened → ∀ rec s, .verify rec s ∉ (m.runOnce cfg env).2.trace
  notBlocked : (m.runOnce cfg env).1 ≠ .breakerBlocked

/-- A step boundary: a half-open breaker has its slot free and admits the next record. -/
structure Boundary (m : SubmissionManager) : Prop where
  slotFree : m.breaker.state = .halfOpen → m.breaker.admissionAvailable = true
  admitsNext : m.breaker.state ≠ .opened → m.breaker.tryAdmit.1 = true

theorem runOnce_admission {cfg : Config} {m : SubmissionManager} {env : StepEnv}
    (h : m.breaker.Unlatched) : (stepMgr cfg m env).breaker.Unlatched ∧ Admits cfg m env := by
  unfold stepMgr
  rcases @runOnce_cases cfg env m with ⟨-, hr⟩ | ⟨-, hs⟩
  · rw [hr]
    exact ⟨h, by rw [hr]; exact reported_of_silent (by simp), by rw [hr]; simp, by rw [hr]; simp⟩
  · obtain ⟨hfree, hrep, hnb, hopen⟩ := hs.admission h rfl
    exact ⟨hfree, hrep, fun ho rec s => by rw [hopen ho]; simp, hnb⟩

/-- In every run of `run_once` steps from a fresh manager, whatever the journal, the
server and the clocks: each step issues at most one `/verify`, none while the breaker is
open, and reports it before the step ends; no step answers `breakerBlocked`; and at every
boundary a half-open breaker has its slot free and admits the next record. -/
theorem breaker_admission (cfg : Config) (journal : Journal) (envs : List StepEnv) :
    let ts := trace (stepMgr cfg) (.new cfg journal) envs
    (∀ t ∈ ts, Admits cfg t.pre t.ev) ∧
      ∀ m ∈ visited (.new cfg journal) ts, Boundary m := by
  intro ts
  obtain ⟨hv, hp, -⟩ := (Run.trace (stepMgr cfg) (.new cfg journal) envs).inv
    (I := fun m => m.breaker.Unlatched) (fun m env m' hstep hI => hstep ▸ (runOnce_admission hI).1)
    (CircuitBreaker.unlatched_of_ne (by simp [SubmissionManager.new, CircuitBreaker.new]))
  refine ⟨fun t ht => (runOnce_admission (hp t ht)).2, fun m hm => ⟨hv m hm, fun hopen => ?_⟩⟩
  exact CircuitBreaker.tryAdmit_of_unlatched (hv m hm) hopen

end TreeMiner
