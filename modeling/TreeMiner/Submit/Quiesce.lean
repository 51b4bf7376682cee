import TreeMiner.Submit.Interleave

/-! The difficulty-transition quiesce, over every interleaving of the poller's observations
with the parts of the drain thread. Two fields decide it: the last difficulty and the
deadline. Each turn observes at most one difficulty, and what it does to the two is that
observation and nothing else. -/

namespace TreeMiner

open Lib SubmissionManager

/-! ## The two fields -/

structure QuiesceGate where
  lastDifficulty : Option UInt32
  quiesceUntilMs : Int

namespace QuiesceGate

/-- A real transition: neither the first observation nor the same again. -/
def Changes (g : QuiesceGate) (d : UInt32) : Prop := ∃ prev, g.lastDifficulty = some prev ∧ prev ≠ d

/-- A difficulty seen at a reading of the clock. -/
def see (hold : Int) (g : QuiesceGate) (d : UInt32) (mono : Int) : QuiesceGate where
  lastDifficulty := some d
  quiesceUntilMs :=
    if g.lastDifficulty.any (· ≠ d) ∧ hold ≠ 0 then max g.quiesceUntilMs (mono + hold)
    else g.quiesceUntilMs

theorem any_ne_iff {g : QuiesceGate} {d : UInt32} :
    g.lastDifficulty.any (· ≠ d) = true ↔ g.Changes d := by
  unfold Changes
  cases g.lastDifficulty with
  | none => simp
  | some prev => simp

instance (g : QuiesceGate) (d : UInt32) : Decidable (g.Changes d) := decidable_of_iff _ any_ne_iff

theorem see_of_not_changes {hold mono : Int} {g : QuiesceGate} {d : UInt32} (h : ¬ g.Changes d) :
    (g.see hold d mono).quiesceUntilMs = g.quiesceUntilMs :=
  if_neg fun hc => h (any_ne_iff.1 hc.1)

theorem see_le {hold mono : Int} (g : QuiesceGate) (d : UInt32) :
    (g.see hold d mono).quiesceUntilMs ≤ max g.quiesceUntilMs (mono + hold) := by
  unfold see
  dsimp only
  split_ifs
  · exact le_rfl
  · exact le_max_left _ _

end QuiesceGate

/-- `difficulty_quiesce_ms`, clamped. -/
def quiesceHold (cfg : Config) : Int := max 0 (min cfg.difficultyQuiesceMs QUIESCE_MAX_MS)

namespace SubmissionManager

variable {cfg : Config} {env : StepEnv} {m : SubmissionManager} {ctx ctx' ctx'' : StepCtx}

def quiesceGate (m : SubmissionManager) : QuiesceGate := ⟨m.lastDifficulty, m.quiesceUntilMs⟩

@[simp] theorem withBreaker_gate (b : CircuitBreaker) :
    (ctx.withBreaker b).mgr.quiesceGate = ctx.mgr.quiesceGate := rfl

@[simp] theorem trackServerDate_gate (r : TransportResult) (wall : Int) :
    (m.trackServerDate r wall).quiesceGate = m.quiesceGate := by
  obtain ⟨o, ho⟩ := trackServerDate_eq (m := m) r wall
  rw [ho]
  rfl

theorem observeDifficulty_gate (d : UInt32) (mono : Int) :
    (m.observeDifficulty cfg d mono).quiesceGate = m.quiesceGate.see (quiesceHold cfg) d mono := by
  unfold observeDifficulty armQuiesce quiesceGate QuiesceGate.see quiesceHold setFinds
  dsimp only
  split_ifs <;> simp_all

/-! ## What a part observes -/

/-- The difficulties hinted out, each behind its observation. -/
def hints (events : List Event) : List UInt32 :=
  events.filterMap fun | .difficultyHint d => some d | _ => none

/-- The drain thread has observed this difficulty, or none. -/
structure Heard (cfg : Config) (env : StepEnv) (o : Option UInt32) (ctx ctx' : StepCtx) :
    Prop where
  gate : ctx'.mgr.quiesceGate = match o with
    | some d => ctx.mgr.quiesceGate.see (quiesceHold cfg) d (env.mono .quiesce)
    | none => ctx.mgr.quiesceGate
  hints : hints ctx'.events = hints ctx.events ++ o.toList
  trace : ctx'.trace = ctx.trace

theorem Heard.refl (ctx : StepCtx) : Heard cfg env none ctx ctx := ⟨rfl, by simp, rfl⟩

theorem Heard.after {o : Option UInt32} (h : Heard cfg env none ctx ctx')
    (h' : Heard cfg env o ctx' ctx'') : Heard cfg env o ctx ctx'' := by
  refine ⟨?_, ?_, h'.trace.trans h.trace⟩
  · rw [h'.gate, h.gate]
  · rw [h'.hints, h.hints]
    simp

theorem Heard.before {o : Option UInt32} (h : Heard cfg env o ctx ctx')
    (h' : Heard cfg env none ctx' ctx'') : Heard cfg env o ctx ctx'' := by
  refine ⟨?_, ?_, h'.trace.trans h.trace⟩
  · rw [h'.gate, h.gate]
  · rw [h'.hints, h.hints]
    simp

theorem heard_note (d : UInt32) (ctx : StepCtx) :
    Heard cfg env (some d) ctx (noteDifficulty cfg env d ctx) := by
  refine ⟨@observeDifficulty_gate cfg ctx.mgr d (env.mono .quiesce), ?_, rfl⟩
  rw [(noteDifficulty_spec d ctx).2.2]
  simp [SubmissionManager.hints]

theorem heard_date (r : TransportResult) (wall : Int) (ctx : StepCtx) :
    Heard cfg env none ctx (ctx.withMgr (ctx.mgr.trackServerDate r wall)) := by
  obtain ⟨o, ho⟩ := trackServerDate_eq (m := ctx.mgr) r wall
  rw [ho]
  exact ⟨rfl, by simp [StepCtx.withMgr], rfl⟩

theorem heard_margin (ctx : StepCtx) : Heard cfg env none ctx (updateMargin cfg env ctx) := by
  obtain ⟨hsame, htrace, -⟩ := @updateMargin_spec cfg env ctx
  refine ⟨?_, ?_, htrace⟩
  · show QuiesceGate.mk _ _ = QuiesceGate.mk _ _
    rw [hsame.lastDifficulty, hsame.quiesce]
  · unfold updateMargin
    dsimp only
    split_ifs <;> simp [SubmissionManager.hints, StepCtx.withMgr, StepCtx.push]

/-- A body that carries a difficulty is observed, and reported as such. -/
theorem heard_body (body : String) (ctx : StepCtx) :
    ∃ o, Heard cfg env o ctx (handleDifficultyBody cfg env body ctx).2 ∧
      ((handleDifficultyBody cfg env body ctx).1 = false → o = none) := by
  rcases @handleDifficultyBody_cases cfg env body ctx with h | ⟨_, d, -, -, h⟩
  · rw [h]
    exact ⟨none, .refl ctx, fun _ => rfl⟩
  · rw [h]
    exact ⟨some d, heard_note d ctx, fun hseen => by cases hseen⟩

/-- Where `/difficulty` is asked too, the health route was no source. -/
theorem heard_health (ctx : StepCtx) :
    ∃ o, Heard cfg env o ctx (probeHealth cfg env ctx).2.2 ∧
      ((!(probeHealth cfg env ctx).1 || !(probeHealth cfg env ctx).2.1) = true → o = none) := by
  unfold probeHealth
  cases env.health with
  | none => exact ⟨none, .refl ctx, fun _ => rfl⟩
  | some h =>
    dsimp only
    have hdate := @heard_date cfg env h (env.wall .healthDate) ctx
    split_ifs
    · obtain ⟨o, hbody, hseen⟩ := @heard_body cfg env h.body
        (ctx.withMgr (ctx.mgr.trackServerDate h (env.wall .healthDate)))
      refine ⟨o, hdate.after hbody, fun hasked => hseen ?_⟩
      simpa using hasked
    · exact ⟨none, hdate, fun _ => rfl⟩

theorem heard_difficulty (healthy seen : Bool) (ctx : StepCtx) :
    ∃ o, Heard cfg env o ctx (probeDifficulty cfg env healthy seen ctx).2 ∧
      (o ≠ none → (!healthy || !seen) = true) := by
  unfold probeDifficulty
  have hdate := @heard_date cfg env env.difficulty (env.wall .probeDate) ctx
  dsimp only
  split_ifs with hasked
  · obtain ⟨o, hbody, -⟩ := @heard_body cfg env env.difficulty.body
      (ctx.withMgr (ctx.mgr.trackServerDate env.difficulty (env.wall .probeDate)))
    exact ⟨o, hdate.after hbody, fun _ => hasked⟩
  · exact ⟨none, hdate, fun h => absurd rfl h⟩
  · exact ⟨none, .refl ctx, fun h => absurd rfl h⟩

/-- A probe observes at most one difficulty. -/
theorem heard_probe (ctx : StepCtx) : ∃ o, Heard cfg env o ctx (probeStep cfg env ctx).2 := by
  unfold probeStep
  split_ifs
  · exact ⟨none, .refl ctx⟩
  obtain ⟨o1, h1, hasked1⟩ := @heard_health cfg env ctx
  rcases hh : probeHealth cfg env ctx with ⟨healthy, seen, c1⟩
  rw [hh] at h1 hasked1
  obtain ⟨o2, h2, hasked2⟩ := @heard_difficulty cfg env healthy seen c1
  rcases hd : probeDifficulty cfg env healthy seen c1 with ⟨healthy', c2⟩
  rw [hd] at h2
  have hend : ∀ b, Heard cfg env none c2 ((c2.withBreaker b).push (.networkState b.state)) :=
    fun b => ⟨rfl, by simp [SubmissionManager.hints, StepCtx.withBreaker, StepCtx.withMgr,
      StepCtx.push], rfl⟩
  dsimp only
  rw [hd]
  cases ho : o2 with
  | none =>
    subst ho
    exact ⟨o1, (h1.before h2).before (hend _)⟩
  | some d =>
    have hnone : o1 = none := hasked1 (hasked2 (by simp [ho]))
    subst hnone
    exact ⟨o2, (h1.after h2).before (hend _)⟩

/-! ## Parts that observe nothing -/

/-- The part before the POST does not move the gate, and posts behind it only. -/
theorem submitPost_gate (ctx : StepCtx) :
    (submitPost cfg env ctx).2.mgr.quiesceGate = ctx.mgr.quiesceGate ∧
      (submitPost cfg env ctx).2.events = ctx.events ∧
      ∀ rec b, .verify rec b ∈ (submitPost cfg env ctx).2.trace → .verify rec b ∈ ctx.trace ∨
        ctx.mgr.quiesceUntilMs ≤ env.mono .gate := by
  obtain ⟨-, finds, htracked, -⟩ := @trackWindow_spec cfg ctx.mgr (env.wall .window)
  have hgate : (ctx.mgr.trackWindow cfg (env.wall .window)).2.quiesceGate =
      ctx.mgr.quiesceGate := by
    rw [htracked]
    rfl
  unfold submitPost
  dsimp only
  by_cases hpaced : env.mono .gate < ctx.mgr.nextSubmitAllowedMs
  · rw [if_pos hpaced]
    exact ⟨rfl, rfl, fun rec b h => Or.inl h⟩
  rw [if_neg hpaced]
  rcases hw : ctx.mgr.trackWindow cfg (env.wall .window) with ⟨window, m⟩
  rw [hw] at hgate
  have huntil : m.quiesceUntilMs = ctx.mgr.quiesceUntilMs :=
    congrArg QuiesceGate.quiesceUntilMs hgate
  dsimp only
  by_cases hheld : env.mono .gate < m.quiesceUntilMs
  · rw [if_pos hheld]
    exact ⟨hgate, rfl, fun rec b h => Or.inl h⟩
  rw [if_neg hheld]
  have hpast : ctx.mgr.quiesceUntilMs ≤ env.mono .gate := huntil ▸ not_lt.1 hheld
  obtain ⟨⟨p, hp⟩, -⟩ := @selectRecord_spec cfg env m window
  rcases hs : selectRecord cfg env window m with ⟨r, m'⟩
  rw [hs] at hp
  have hgate' : m'.quiesceGate = ctx.mgr.quiesceGate := by
    rw [← hgate, show m' = _ from hp]
    rfl
  cases r with
  | none => exact ⟨hgate', rfl, fun _ _ _ => Or.inr hpast⟩
  | some r =>
    rcases ha : m'.breaker.tryAdmit with ⟨admitted, b⟩
    cases admitted with
    | false =>
      refine ⟨?_, ?_, fun _ _ _ => Or.inr hpast⟩
      · simpa [ha] using hgate'
      · simp [ha, StepCtx.withBreaker, StepCtx.withMgr]
    | true =>
      refine ⟨?_, ?_, fun _ _ _ => Or.inr hpast⟩
      · simpa [ha] using hgate'
      · simp [ha, StepCtx.withBreaker, StepCtx.withMgr, StepCtx.act]

/-- No `/verify` goes out from one to the other. -/
def NoPost (ctx ctx' : StepCtx) : Prop :=
  ∃ as, ctx'.trace = ctx.trace ++ as ∧ ∀ rec b, .verify rec b ∉ as

/-- The record of an attempt, and the lookups: no observation and no further POST. -/
structure OffGate (ctx ctx' : StepCtx) : Prop where
  gate : ctx'.mgr.quiesceGate = ctx.mgr.quiesceGate
  trace : NoPost ctx ctx'

theorem reportOutcome_gate (f : Inflight) (c : Classification) :
    (reportOutcome env f c m).quiesceGate = m.quiesceGate := by
  unfold reportOutcome
  cases verifyOutcome f c <;> rfl

theorem submitRecord_offGate (f : Inflight) (ctx : StepCtx) :
    OffGate ctx (submitRecord cfg env f ctx).2 := by
  have hconfirm : OffGate ctx (submitConfirm env f ctx) := by
    unfold submitConfirm
    split_ifs
    · exact ⟨by simp, [.getBlock f.record env.confirm], by simp, by simp⟩
    · exact ⟨rfl, [], by simp, by simp⟩
  obtain ⟨hgate, as, htrace, hno⟩ := hconfirm
  unfold submitRecord
  rcases settle cfg env f with ⟨c, next⟩
  dsimp only
  cases (submitConfirm env f ctx).mgr.journal.finds.recordAttempt f.record.id c
      (answeredStatus f.res) f.res.body (nextAttempt cfg env f c next)
      (isoUtc (env.wall .attemptAt)) with
  | error e => exact ⟨hgate, as, htrace, hno⟩
  | ok finds =>
    refine ⟨?_, as ++ [.report (verifyOutcome f c)], ?_, ?_⟩
    · rw [← hgate]
      exact reportOutcome_gate f c
    · simp [htrace]
    · intro rec b hmem
      rcases List.mem_append.1 hmem with h | h
      · exact hno rec b h
      · simp at h

theorem confirmOne_offGate (l : Lookup) (rec : FindRecord) (ctx : StepCtx) :
    OffGate ctx (confirmOne cfg l rec ctx).2 := by
  unfold confirmOne
  rcases confirmRetry rec l.answer (backoffTimeIso cfg rec.attemptCount none l.backoffAt) with
    ⟨c, next⟩
  dsimp only
  split
  · exact ⟨by simp, [.getBlock rec l.answer], by simp, by simp⟩
  · refine ⟨?_, [.getBlock rec l.answer], by simp, by simp⟩
    simp only [push_mgr, withMgr_mgr]
    exact trackServerDate_gate l.answer l.dateAt

end SubmissionManager

/-! ## Turns -/

namespace Machine

variable {cfg : Config} {env : StepEnv}

/-- The difficulty the drain thread's next part observes: a probe's, or a 401's hint. -/
def heard (cfg : Config) (env : StepEnv) (s : Machine) : Option UInt32 :=
  match s.phase with
  | .idle => (hints (s.drain cfg env).ctx.events).head?
  | .posted f => f.c.serverDifficultyHint
  | .hinted _ _ | .drained | .confirming _ _ => none

/-- The call of `observe_difficulty` in a turn, with its reading. -/
def observation (cfg : Config) (s : Machine) : Turn → Option (UInt32 × Int)
  | .observe d mono => some (d, mono)
  | .drain env => (s.heard cfg env).map fun d => (d, env.mono .quiesce)
  | .append _ | .restart => none

/-- What the drain thread's next part asks of the server. -/
def asked (cfg : Config) (env : StepEnv) (s : Machine) : List Action :=
  match s.phase with
  | .idle => (s.drain cfg env).ctx.trace
  | .posted _ | .hinted _ _ | .drained | .confirming _ _ =>
    (s.drain cfg env).ctx.trace.drop s.ctx.trace.length

theorem begin_gate (m : SubmissionManager) :
    ∃ o, ((begin cfg env m).mgr.quiesceGate = match o with
        | some d => m.quiesceGate.see (quiesceHold cfg) d (env.mono .quiesce)
        | none => m.quiesceGate) ∧
      hints (begin cfg env m).ctx.events = o.toList ∧
      ∀ rec b, .verify rec b ∈ (begin cfg env m).ctx.trace →
        m.quiesceUntilMs ≤ env.mono .gate := by
  have hmargin := @heard_margin cfg env ⟨m, [], []⟩
  unfold begin
  split_ifs with hf
  · exact ⟨none, rfl, rfl, by simp⟩
  dsimp only
  split_ifs with hopen
  · obtain ⟨o, hprobe⟩ := @heard_probe cfg env (updateMargin cfg env ⟨m, [], []⟩)
    have h := hmargin.after hprobe
    refine ⟨o, h.gate, h.hints, fun rec b hmem => ?_⟩
    have htrace : (probeStep cfg env (updateMargin cfg env ⟨m, [], []⟩)).2.trace = [] := h.trace
    rw [htrace] at hmem
    cases hmem
  · obtain ⟨hgate, hevents, hposts⟩ :=
      @submitPost_gate cfg env (updateMargin cfg env ⟨m, [], []⟩)
    have huntil : (updateMargin cfg env ⟨m, [], []⟩).mgr.quiesceUntilMs = m.quiesceUntilMs :=
      congrArg QuiesceGate.quiesceUntilMs hmargin.gate
    rw [hmargin.trace, huntil] at hposts
    rcases hp : submitPost cfg env (updateMargin cfg env ⟨m, [], []⟩) with ⟨r, ctx⟩
    rw [hp] at hgate hevents hposts
    have hnone : hints ctx.events = [] := by
      rw [show ctx.events = _ from hevents, hmargin.hints]
      rfl
    have hall : ∀ rec b, .verify rec b ∈ ctx.trace → m.quiesceUntilMs ≤ env.mono .gate := by
      intro rec b hmem
      rcases hposts rec b hmem with h | h
      · cases h
      · exact h
    cases r with
    | error e => exact ⟨none, hgate.trans hmargin.gate, hnone, hall⟩
    | ok f => exact ⟨none, hgate.trans hmargin.gate, hnone, hall⟩

/-- A part of the drain thread behind the POST. -/
theorem drain_offGate {s : Machine} (hidle : s.phase ≠ .idle) (hposted : ∀ f, s.phase ≠ .posted f) :
    OffGate s.ctx (s.drain cfg env).ctx := by
  have hsame : OffGate s.ctx s.ctx := ⟨rfl, [], by simp, by simp⟩
  unfold drain
  cases hphase : s.phase with
  | idle => exact absurd hphase hidle
  | posted f => exact absurd hphase (hposted f)
  | hinted f polled =>
    dsimp only
    have hoff := @submitRecord_offGate cfg env f s.ctx
    rcases hr : submitRecord cfg env f s.ctx with ⟨r, ctx⟩
    rw [hr] at hoff
    cases r with
    | ok r => exact hoff
    | error e => exact ⟨hoff.gate, hoff.trace⟩
  | drained =>
    dsimp only
    split_ifs
    · exact hsame
    · exact hsame
  | confirming i batch =>
    cases batch with
    | nil => exact hsame
    | cons rec rest =>
      dsimp only
      have hoff := @confirmOne_offGate cfg (env.lookups i) rec s.ctx
      rcases hr : confirmOne cfg (env.lookups i) rec s.ctx with ⟨r, ctx⟩
      rw [hr] at hoff
      cases r with
      | ok r =>
        dsimp only
        split_ifs
        · exact hoff
        · exact hoff
      | error e => exact ⟨hoff.gate, hoff.trace⟩

/-- The drain thread's part moves the gate by what it observes, and by nothing else. -/
theorem drain_gate (s : Machine) :
    (s.drain cfg env).mgr.quiesceGate = match s.heard cfg env with
      | some d => s.mgr.quiesceGate.see (quiesceHold cfg) d (env.mono .quiesce)
      | none => s.mgr.quiesceGate := by
  unfold heard
  cases hphase : s.phase with
  | idle =>
    obtain ⟨o, hgate, hhints, -⟩ := @begin_gate cfg env s.mgr
    have hdrain : s.drain cfg env = begin cfg env s.mgr := by
      unfold drain
      rw [hphase]
    rw [hdrain, hhints, hgate]
    cases o <;> rfl
  | posted f =>
    unfold drain submitHint
    rw [hphase]
    dsimp only
    cases f.c.serverDifficultyHint with
    | none => rfl
    | some d => exact @observeDifficulty_gate cfg s.mgr d (env.mono .quiesce)
  | hinted f polled => exact (drain_offGate (by simp [hphase]) (by simp [hphase])).gate
  | drained => exact (drain_offGate (by simp [hphase]) (by simp [hphase])).gate
  | confirming i batch => exact (drain_offGate (by simp [hphase]) (by simp [hphase])).gate

/-- A `/verify` goes out only at a reading that is not before the deadline. -/
theorem asked_gate {s : Machine} {rec : FindRecord} {b : BreakerState}
    (h : .verify rec b ∈ s.asked cfg env) : s.mgr.quiesceUntilMs ≤ env.mono .gate := by
  have hquiet : NoPost s.ctx (s.drain cfg env).ctx →
      .verify rec b ∉ (s.drain cfg env).ctx.trace.drop s.ctx.trace.length := by
    rintro ⟨as, htrace, hno⟩
    rw [htrace, List.drop_left]
    exact hno rec b
  unfold asked at h
  cases hphase : s.phase with
  | idle =>
    obtain ⟨o, -, -, hposts⟩ := @begin_gate cfg env s.mgr
    have hdrain : s.drain cfg env = begin cfg env s.mgr := by
      unfold drain
      rw [hphase]
    rw [hphase, hdrain] at h
    exact hposts rec b h
  | posted f =>
    rw [hphase] at h
    refine absurd h (hquiet ⟨[], ?_, by simp⟩)
    rw [List.append_nil]
    unfold drain submitHint
    rw [hphase]
    dsimp only
    cases f.c.serverDifficultyHint with
    | none => rfl
    | some d => exact (noteDifficulty_spec d s.ctx).2.1
  | hinted f polled =>
    rw [hphase] at h
    exact absurd h (hquiet (drain_offGate (by simp [hphase]) (by simp [hphase])).trace)
  | drained =>
    rw [hphase] at h
    exact absurd h (hquiet (drain_offGate (by simp [hphase]) (by simp [hphase])).trace)
  | confirming i batch =>
    rw [hphase] at h
    exact absurd h (hquiet (drain_offGate (by simp [hphase]) (by simp [hphase])).trace)

/-- Short of a restart, a turn moves the gate by its observation, and by nothing else. -/
theorem turn_gate (s : Machine) {t : Turn} (ht : t ≠ .restart) :
    (s.turn cfg t).mgr.quiesceGate = match s.observation cfg t with
      | some (d, mono) => s.mgr.quiesceGate.see (quiesceHold cfg) d mono
      | none => s.mgr.quiesceGate := by
  cases t with
  | append payload => rfl
  | observe d mono => exact observeDifficulty_gate d mono
  | drain env =>
    show (s.drain cfg env).mgr.quiesceGate =
      match (s.heard cfg env).map fun d => (d, env.mono .quiesce) with
      | some (d, mono) => s.mgr.quiesceGate.see (quiesceHold cfg) d mono
      | none => s.mgr.quiesceGate
    rw [drain_gate]
    cases s.heard cfg env <;> rfl
  | restart => exact absurd rfl ht

end Machine

/-! ## Runs -/

/-- A run under observation: `changedAt` is the reading of the last call of this process that
changed the difficulty. -/
structure Quiesced where
  machine : Machine
  changedAt : Option Int

namespace Quiesced

def start (cfg : Config) (journal : Journal) : Quiesced := ⟨.start cfg journal, none⟩

def untilMs (w : Quiesced) : Int := w.machine.mgr.quiesceUntilMs

def turn (cfg : Config) (w : Quiesced) (t : Turn) : Quiesced where
  machine := w.machine.turn cfg t
  changedAt :=
    match t with
    | .restart => none
    | .append _ | .observe _ _ | .drain _ =>
      match w.machine.observation cfg t with
      | some (d, mono) => if w.machine.mgr.quiesceGate.Changes d then some mono else w.changedAt
      | none => w.changedAt

/-- The clock is above zero and does not run backwards. -/
def Ticks (cfg : Config) (t : Trans Quiesced Turn) : Prop :=
  ∀ o ∈ t.pre.machine.observation cfg t.ev, 0 < o.2 ∧ ∀ c ∈ t.pre.changedAt, c ≤ o.2

instance (cfg : Config) (t : Trans Quiesced Turn) : Decidable (Ticks cfg t) :=
  inferInstanceAs (Decidable (∀ o ∈ t.pre.machine.observation cfg t.ev, _))

/-- The deadline is one clamped hold past the last change at most. -/
def Bounded (cfg : Config) (w : Quiesced) : Prop :=
  match w.changedAt with
  | some c => 0 < c ∧ w.untilMs ≤ c + quiesceHold cfg
  | none => w.untilMs = 0

theorem turn_bounded {cfg : Config} {w : Quiesced} {t : Turn} (h : w.Bounded cfg)
    (hclock : Ticks cfg ⟨w, t, w.turn cfg t⟩) : (w.turn cfg t).Bounded cfg := by
  by_cases ht : t = .restart
  · subst ht
    rfl
  have hgate := @Machine.turn_gate cfg w.machine t ht
  have hchanged : (w.turn cfg t).changedAt = match w.machine.observation cfg t with
      | some (d, mono) => if w.machine.mgr.quiesceGate.Changes d then some mono else w.changedAt
      | none => w.changedAt := by
    cases t with
    | restart => exact absurd rfl ht
    | append payload => rfl
    | observe d mono => rfl
    | drain env => rfl
  have huntil : (w.turn cfg t).untilMs = (w.machine.turn cfg t).mgr.quiesceGate.quiesceUntilMs :=
    rfl
  have hhold : 0 ≤ quiesceHold cfg := le_max_left _ _
  unfold Bounded at h ⊢
  rw [hchanged, huntil, hgate]
  cases ho : w.machine.observation cfg t with
  | none => exact h
  | some o =>
    obtain ⟨d, mono⟩ := o
    obtain ⟨hpos, hlast⟩ := hclock (d, mono) ho
    dsimp only
    by_cases hc : w.machine.mgr.quiesceGate.Changes d
    · rw [if_pos hc]
      refine ⟨hpos, (QuiesceGate.see_le _ d).trans (max_le ?_ le_rfl)⟩
      show w.untilMs ≤ mono + quiesceHold cfg
      cases hat : w.changedAt with
      | none =>
        rw [hat] at h
        dsimp only at h hpos
        omega
      | some c =>
        rw [hat] at h
        have hle : c ≤ mono := hlast c hat
        dsimp only at h
        omega
    · rw [if_neg hc, QuiesceGate.see_of_not_changes hc]
      exact h

theorem run_bounded {cfg : Config} {journal : Journal} {turns : List Turn}
    (hclock : ∀ t ∈ trace (turn cfg) (start cfg journal) turns, Ticks cfg t) :
    ∀ w ∈ visited (start cfg journal) (trace (turn cfg) (start cfg journal) turns),
      w.Bounded cfg := by
  refine ((Run.trace (turn cfg) (start cfg journal) turns).inv_of (I := Bounded cfg) ?_ rfl
    hclock).1
  rintro ⟨w, t, w'⟩ hstep h hticks
  obtain rfl : w' = w.turn cfg t := hstep
  exact turn_bounded h hticks

end Quiesced

/-- Along every interleaving the deadline is at most the clamped hold past the last change, a
`/verify` goes out only at a reading that is not before it, and a turn that observes no
change (the first difficulty of the process, the same again, or none) leaves it alone. -/
theorem quiesce_bounded {cfg : Config} {journal : Journal} {turns : List Turn}
    (hclock : ∀ t ∈ trace (Quiesced.turn cfg) (.start cfg journal) turns, Quiesced.Ticks cfg t) :
    (∀ w ∈ visited (.start cfg journal) (trace (Quiesced.turn cfg) (.start cfg journal) turns),
      match w.changedAt with
      | some c => w.untilMs ≤ c + max 0 (min cfg.difficultyQuiesceMs 60000)
      | none => w.untilMs = 0) ∧
    ∀ t ∈ trace (Quiesced.turn cfg) (.start cfg journal) turns,
      (∀ env rec b, t.ev = .drain env → .verify rec b ∈ t.pre.machine.asked cfg env →
        t.pre.untilMs ≤ env.mono .gate) ∧
      (t.ev ≠ .restart → (∀ d mono, t.pre.machine.observation cfg t.ev = some (d, mono) →
          t.pre.machine.mgr.lastDifficulty = none ∨ t.pre.machine.mgr.lastDifficulty = some d) →
        t.post.untilMs = t.pre.untilMs) := by
  refine ⟨?_, fun t ht => ⟨?_, ?_⟩⟩
  · intro w hw
    have hbounded := Quiesced.run_bounded hclock w hw
    unfold Quiesced.Bounded at hbounded
    cases hat : w.changedAt with
    | none =>
      rw [hat] at hbounded
      exact hbounded
    | some c =>
      rw [hat] at hbounded
      exact hbounded.2
  · rintro env rec b - hasked
    exact Machine.asked_gate hasked
  · intro hev hsame
    have hpost : t.post = t.pre.turn cfg t.ev :=
      (Run.trace (Quiesced.turn cfg) (.start cfg journal) turns).step_of_mem ht
    have huntil : t.post.untilMs =
        (t.pre.machine.turn cfg t.ev).mgr.quiesceGate.quiesceUntilMs := by rw [hpost]; rfl
    rw [huntil, Machine.turn_gate _ hev]
    cases ho : t.pre.machine.observation cfg t.ev with
    | none => rfl
    | some o =>
      obtain ⟨d, mono⟩ := o
      refine QuiesceGate.see_of_not_changes ?_
      rintro ⟨prev, hprev, hne⟩
      have hlast : t.pre.machine.mgr.lastDifficulty = some prev := hprev
      rcases hsame d mono ho with h | h
      · rw [h] at hlast
        cases hlast
      · rw [h] at hlast
        cases hlast
        exact hne rfl

/-- The difficulty flaps while a find waits; the second step comes past the deadline. -/
def flapping : List Turn :=
  [.observe 100 1000, .observe 200 2000, .observe 100 3000, .drain (.silent 4000),
    .drain (.silent 4000), .drain (.silent 4000), .drain (.silent 8000)]

def flappingStart : Journal := .ofCaptures [.sample "k" .xen11 100]

theorem quiesce_bounded_flapping :
    let w := flapping.foldl (Quiesced.turn .default) (.start .default flappingStart)
    w.changedAt = some 3000 ∧ w.untilMs ≤ 3000 + 5000 ∧
      w.machine.ctx.trace.length = 1 := by
  have hbounded := (@quiesce_bounded .default flappingStart flapping (by decide)).1
    (flapping.foldl (Quiesced.turn .default) (.start .default flappingStart))
    (Run.trace (Quiesced.turn .default) _ flapping).mem_visited
  have hat : (flapping.foldl (Quiesced.turn .default)
      (.start .default flappingStart)).changedAt = some 3000 := by decide
  rw [hat] at hbounded
  exact ⟨hat, hbounded, by decide⟩

end TreeMiner
