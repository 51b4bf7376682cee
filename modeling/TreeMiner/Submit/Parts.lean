import TreeMiner.Submit.Manager

/-! What each part of a scheduling step can do. Later proofs read these lemmas and do
not unfold the step again. -/

namespace TreeMiner

/-! ## The journal's statements -/

namespace Finds

variable {t : Finds}

@[simp] theorem update_rows (f : FindRecord → FindRecord) (hid : ∀ r, (f r).id = r.id)
    (hpay : ∀ r, (f r).payload = r.payload) : (t.update f hid hpay).rows = t.rows.map f := rfl

/-- The row an id names. -/
def HasId (t : Finds) (id : Int) : Prop := ∃ r ∈ t.rows, r.id = id

theorem HasId.map {t t' : Finds} {id : Int} {f : FindRecord → FindRecord}
    (h : t'.rows = t.rows.map f) (hid : ∀ r, (f r).id = r.id) (hi : t.HasId id) :
    t'.HasId id := by
  obtain ⟨r, hr, rfl⟩ := hi
  exact ⟨f r, by rw [h]; exact List.mem_map_of_mem hr, hid r⟩

/-- Which row an attempt writes. -/
def attemptAt (id : Int) (c : Classification) (httpStatus : Option Int) (responseBody : String)
    (nextAttemptAt : Option String) (nowUtc : String) (r : FindRecord) : FindRecord :=
  if r.id = id then attempted c httpStatus responseBody nextAttemptAt nowUtc r else r

theorem attemptAt_id {id : Int} {c : Classification} {h : Option Int} {b : String}
    {n : Option String} {now : String} (r : FindRecord) :
    (attemptAt id c h b n now r).id = r.id := by
  unfold attemptAt
  split_ifs <;> rfl

/-- An attempt on a journaled row succeeds, unless it would store `submitting`. -/
theorem recordAttempt_ok {id : Int} {c : Classification} {http : Option Int} {body : String}
    {next : Option String} {now : String} (hc : c.nextStatus ≠ .submitting) (hi : t.HasId id) :
    ∃ t', t.recordAttempt id c http body next now = .ok t' ∧
      t'.rows = t.rows.map (attemptAt id c http body next now) := by
  have hany : t.rows.any (fun r => r.id = id) = true := by
    obtain ⟨r, hr, he⟩ := hi
    exact List.any_eq_true.2 ⟨r, hr, by simpa using he⟩
  unfold recordAttempt
  rw [if_neg hc, if_pos hany]
  exact ⟨_, rfl, rfl⟩

theorem fetchByStatus_mem {status : FindStatus} {kind : Option FindKind} {now : String}
    {limit : Nat} {r : FindRecord} (h : r ∈ t.fetchByStatus status kind now limit) :
    r ∈ t.rows ∧ r.status = status := by
  have hf := List.mem_filter.1 (List.mem_of_mem_take h)
  simp only [Bool.and_eq_true, decide_eq_true_eq] at hf
  exact ⟨hf.1, hf.2.1.1⟩

/-- What `unpark_xuni_for_window` does to one row. -/
def windowed (maxWindows : Int) (r : FindRecord) : FindRecord := unparkedXuni (exhausted maxWindows r)

theorem unparkXuniForWindow_rows (maxWindows : Int) :
    (t.unparkXuniForWindow maxWindows).rows = t.rows.map (windowed maxWindows) := by
  simp [unparkXuniForWindow, windowed]

theorem windowed_id (maxWindows : Int) (r : FindRecord) : (windowed maxWindows r).id = r.id := by
  unfold windowed unparkedXuni exhausted
  split_ifs <;> rfl

theorem unparkedAt_id (d : UInt32) (r : FindRecord) : (unparkedAt d r).id = r.id := by
  unfold unparkedAt
  split_ifs <;> rfl

end Finds

namespace SubmissionManager

variable {cfg : Config} {env : StepEnv} {m : SubmissionManager} {ctx : StepCtx}

@[simp] theorem withMgr_mgr : (ctx.withMgr m).mgr = m := rfl
@[simp] theorem withMgr_trace : (ctx.withMgr m).trace = ctx.trace := rfl
@[simp] theorem push_mgr (e : Event) : (ctx.push e).mgr = ctx.mgr := rfl
@[simp] theorem push_trace (e : Event) : (ctx.push e).trace = ctx.trace := rfl
@[simp] theorem act_mgr (a : Action) : (ctx.act a).mgr = ctx.mgr := rfl
@[simp] theorem act_trace (a : Action) : (ctx.act a).trace = ctx.trace ++ [a] := rfl
@[simp] theorem withBreaker_breaker (b : CircuitBreaker) :
    (ctx.withBreaker b).mgr.breaker = b := rfl
@[simp] theorem withBreaker_journal (b : CircuitBreaker) :
    (ctx.withBreaker b).mgr.journal = ctx.mgr.journal := rfl
@[simp] theorem withBreaker_trace (b : CircuitBreaker) :
    (ctx.withBreaker b).trace = ctx.trace := rfl

/-! ## Clock offset, difficulty, headroom -/

/-- A response moves the server offset and nothing else. -/
theorem trackServerDate_eq (r : TransportResult) (wall : Int) :
    ∃ o, m.trackServerDate r wall = { m with serverOffsetMs := o } := by
  unfold trackServerDate
  split_ifs
  · exact ⟨m.serverOffsetMs, rfl⟩
  · cases r.dateHeader.bind parseHttpDateMs with
    | none => exact ⟨m.serverOffsetMs, rfl⟩
    | some serverMs => exact ⟨some (serverMs - wall), rfl⟩

/-- What an observation leaves alone. -/
structure Observed (d : UInt32) (m m' : SubmissionManager) : Prop where
  finds : m'.journal.finds =
    if m.requalifies d then m.journal.finds.unparkForDifficulty d else m.journal.finds
  lastDifficulty : m'.lastDifficulty = some d
  breaker : m'.breaker = m.breaker
  scheduler : m'.scheduler = m.scheduler
  nextSubmit : m'.nextSubmitAllowedMs = m.nextSubmitAllowedMs
  window : m'.lastWindowOpen = m.lastWindowOpen
  offset : m'.serverOffsetMs = m.serverOffsetMs
  fatal : m'.fatal = m.fatal

theorem observeDifficulty_spec (d : UInt32) (mono : Int) :
    Observed d m (m.observeDifficulty cfg d mono) := by
  unfold observeDifficulty armQuiesce setFinds
  dsimp only
  split_ifs with h1 h2 h3 <;> constructor <;> simp [*]

/-- The part of the manager the headroom and the outage clock do not touch. -/
structure SameWork (m m' : SubmissionManager) : Prop where
  journal : m'.journal = m.journal
  breaker : m'.breaker = m.breaker
  scheduler : m'.scheduler = m.scheduler
  nextSubmit : m'.nextSubmitAllowedMs = m.nextSubmitAllowedMs
  window : m'.lastWindowOpen = m.lastWindowOpen
  lastDifficulty : m'.lastDifficulty = m.lastDifficulty
  offset : m'.serverOffsetMs = m.serverOffsetMs
  quiesce : m'.quiesceUntilMs = m.quiesceUntilMs
  fatal : m'.fatal = m.fatal

theorem ageOutage_spec (now : Int) : SameWork m (m.ageOutage now) := by
  unfold ageOutage
  split_ifs <;> exact ⟨rfl, rfl, rfl, rfl, rfl, rfl, rfl, rfl, rfl⟩

theorem updateMargin_spec (ctx : StepCtx) :
    SameWork ctx.mgr (updateMargin cfg env ctx).mgr ∧
      (updateMargin cfg env ctx).trace = ctx.trace ∧
      ∀ d, .difficultyHint d ∈ (updateMargin cfg env ctx).events ↔
        .difficultyHint d ∈ ctx.events := by
  have h := ageOutage_spec (m := ctx.mgr) (env.mono .margin)
  unfold updateMargin
  dsimp only
  split_ifs
  · exact ⟨h, rfl, fun _ => Iff.rfl⟩
  · exact ⟨h, rfl, fun _ => Iff.rfl⟩
  · exact ⟨⟨h.1, h.2, h.3, h.4, h.5, h.6, h.7, h.8, h.9⟩, rfl, fun _ => Iff.rfl⟩
  · refine ⟨⟨h.1, h.2, h.3, h.4, h.5, h.6, h.7, h.8, h.9⟩, rfl, fun d => ?_⟩
    simp [StepCtx.push, StepCtx.withMgr]

theorem noteDifficulty_spec (d : UInt32) (ctx : StepCtx) :
    Observed d ctx.mgr (noteDifficulty cfg env d ctx).mgr ∧
      (noteDifficulty cfg env d ctx).trace = ctx.trace ∧
      (noteDifficulty cfg env d ctx).events = ctx.events ++ [.difficultyHint d] := by
  have h := @observeDifficulty_spec cfg ctx.mgr d (env.mono .quiesce)
  exact ⟨⟨h.1, h.2, h.3, h.4, h.5, h.6, h.7, h.8⟩, rfl, rfl⟩

/-- A difficulty body either says nothing or is noted. -/
theorem handleDifficultyBody_cases (body : String) (ctx : StepCtx) :
    handleDifficultyBody cfg env body ctx = (false, ctx) ∨
    ∃ field d, extractJsonField body "difficulty" = some field ∧
      parseDifficultyHint s!"m={field}" = some d ∧
      handleDifficultyBody cfg env body ctx = (true, noteDifficulty cfg env d ctx) := by
  unfold handleDifficultyBody
  cases hf : extractJsonField body "difficulty" with
  | none => exact Or.inl rfl
  | some field =>
    cases hd : parseDifficultyHint s!"m={field}" with
    | none => left; simp [hd]
    | some d => exact Or.inr ⟨field, d, rfl, hd, by simp [hd]⟩

/-! ## The probe -/

/-- A run of notes and clock offsets: all a probe does before it tells the breaker. -/
inductive Probed (cfg : Config) (env : StepEnv) : StepCtx → StepCtx → Prop
  | refl (ctx : StepCtx) : Probed cfg env ctx ctx
  | date {ctx ctx' : StepCtx} (o : Option Int) :
      Probed cfg env (ctx.withMgr { ctx.mgr with serverOffsetMs := o }) ctx' →
      Probed cfg env ctx ctx'
  | note {ctx ctx' : StepCtx} (body field : String) (d : UInt32) :
      (body = env.difficulty.body ∨ env.health.map (·.body) = some body) →
      extractJsonField body "difficulty" = some field →
      parseDifficultyHint s!"m={field}" = some d →
      Probed cfg env (noteDifficulty cfg env d ctx) ctx' → Probed cfg env ctx ctx'

theorem Probed.trans {a b c : StepCtx} (h : Probed cfg env a b) (h' : Probed cfg env b c) :
    Probed cfg env a c := by
  induction h with
  | refl => exact h'
  | date o _ ih => exact .date o (ih h')
  | note body field d hb hf hd _ ih => exact .note body field d hb hf hd (ih h')

theorem probed_body {body : String} (ctx : StepCtx)
    (hb : body = env.difficulty.body ∨ env.health.map (·.body) = some body) :
    Probed cfg env ctx (handleDifficultyBody cfg env body ctx).2 := by
  rcases @handleDifficultyBody_cases cfg env body ctx with h | ⟨f, d, hf, hd, h⟩
  · rw [h]; exact .refl ctx
  · rw [h]; exact .note body f d hb hf hd (.refl _)

theorem probed_date (ctx : StepCtx) (r : TransportResult) (wall : Int) :
    Probed cfg env ctx (ctx.withMgr (ctx.mgr.trackServerDate r wall)) := by
  obtain ⟨o, ho⟩ := trackServerDate_eq (m := ctx.mgr) r wall
  rw [ho]
  exact .date o (.refl _)

theorem probeHealth_probed (ctx : StepCtx) :
    Probed cfg env ctx (probeHealth cfg env ctx).2.2 := by
  unfold probeHealth
  cases hh : env.health with
  | none => exact .refl ctx
  | some h =>
    dsimp only
    split_ifs
    · exact (probed_date ctx h _).trans (probed_body _ (Or.inr (by simp [hh])))
    · exact probed_date ctx h _

theorem probeDifficulty_probed (healthy seen : Bool) (ctx : StepCtx) :
    Probed cfg env ctx (probeDifficulty cfg env healthy seen ctx).2 := by
  unfold probeDifficulty
  split_ifs
  · exact (probed_date ctx _ _).trans (probed_body _ (Or.inl rfl))
  · exact probed_date ctx _ _
  · exact .refl ctx

/-- A due probe notes what it learns, then tells the breaker one of two things. -/
theorem probeStep_cases (ctx : StepCtx) :
    probeStep cfg env ctx = (.idle, ctx) ∨
    ∃ ctx' b, Probed cfg env ctx ctx' ∧
      (b = ctx'.mgr.breaker.onProbeSuccess ∨
        b = ctx'.mgr.breaker.onProbeFailure (env.mono .schedule) env.jitter) ∧
      probeStep cfg env ctx =
        (.probed, (ctx'.withBreaker b).push (.networkState b.state)) := by
  unfold probeStep
  split_ifs with hdue
  · exact Or.inl rfl
  · right
    have p1 := @probeHealth_probed cfg env ctx
    rcases h1 : probeHealth cfg env ctx with ⟨healthy, seen, c1⟩
    rw [h1] at p1
    have p2 := @probeDifficulty_probed cfg env healthy seen c1
    rcases h2 : probeDifficulty cfg env healthy seen c1 with ⟨healthy', c2⟩
    rw [h2] at p2
    cases healthy' with
    | true => exact ⟨c2, _, p1.trans p2, Or.inl rfl, by simp [h2]⟩
    | false => exact ⟨c2, _, p1.trans p2, Or.inr rfl, by simp [h2]⟩

/-! ## The submit step -/

/-- The window bookkeeping writes the edge flag, and on an opening edge the parked XUNI. -/
theorem trackWindow_spec (wall : Int) :
    (m.trackWindow cfg wall).1 = xuniWindowAt (wall + m.serverOffsetMs.getD 0) ∧
    ∃ finds, (m.trackWindow cfg wall).2 =
        { m.setFinds finds with lastWindowOpen := (m.trackWindow cfg wall).1.isOpen } ∧
      finds = if (m.trackWindow cfg wall).1.isOpen && !m.lastWindowOpen then
        m.journal.finds.unparkXuniForWindow cfg.xuniMaxWindows else m.journal.finds := by
  refine ⟨rfl, _, ?_, rfl⟩
  unfold trackWindow
  dsimp only
  split_ifs <;> rfl

/-- Selection touches the breaker's pressure only, and picks a pending row. -/
theorem selectRecord_spec (window : XuniWindowState) :
    (∃ p, (selectRecord cfg env window m).2 =
      { m with breaker := m.breaker.setXuniPressure p (env.mono .pressure) }) ∧
    ∀ r, (selectRecord cfg env window m).1 = some r →
      r ∈ m.journal.finds.rows ∧ r.status = .pending := by
  unfold selectRecord
  dsimp only
  split_ifs with ho he
  · exact ⟨⟨_, rfl⟩, fun r hr => by cases hr⟩
  · refine ⟨⟨_, rfl⟩, fun r hr => ?_⟩
    rcases List.mem_append.1 (DrainScheduler.selectNext_mem hr) with h | h
    · exact Finds.fetchByStatus_mem h
    · exact Finds.fetchByStatus_mem h
  · exact ⟨⟨_, rfl⟩, fun r hr => by cases hr⟩
  · refine ⟨⟨_, rfl⟩, fun r hr => ?_⟩
    have h := DrainScheduler.selectNext_mem hr
    rw [List.append_nil] at h
    exact Finds.fetchByStatus_mem h

/-- The manager behind the window bookkeeping, with the pressure it then reports. -/
def windowedMgr (cfg : Config) (env : StepEnv) (m : SubmissionManager) (pressure : Bool) :
    SubmissionManager :=
  let m := (m.trackWindow cfg (env.wall .window)).2
  { m with breaker := m.breaker.setXuniPressure pressure (env.mono .pressure) }

/-- Every way `submit_step` can get as far as an answer of `/verify`, or end before. -/
inductive Posted (cfg : Config) (env : StepEnv) (ctx : StepCtx) :
    Except StepResult Inflight × StepCtx → Prop
  | paced (h : env.mono .gate < ctx.mgr.nextSubmitAllowedMs) : Posted cfg env ctx (.error .idle, ctx)
  | held (h : ctx.mgr.nextSubmitAllowedMs ≤ env.mono .gate) :
      Posted cfg env ctx
        (.error .quiescing, ctx.withMgr (ctx.mgr.trackWindow cfg (env.wall .window)).2)
  | nothing (h : ctx.mgr.nextSubmitAllowedMs ≤ env.mono .gate) (p : Bool) :
      Posted cfg env ctx (.error .idle, ctx.withMgr (windowedMgr cfg env ctx.mgr p))
  | blocked (h : ctx.mgr.nextSubmitAllowedMs ≤ env.mono .gate) (p : Bool)
      (hb : (windowedMgr cfg env ctx.mgr p).breaker.tryAdmit.1 = false) :
      Posted cfg env ctx (.error .breakerBlocked,
        (ctx.withMgr (windowedMgr cfg env ctx.mgr p)).withBreaker
          (windowedMgr cfg env ctx.mgr p).breaker.tryAdmit.2)
  | sent (h : ctx.mgr.nextSubmitAllowedMs ≤ env.mono .gate) (p : Bool) (o : Option Int)
      (f : Inflight)
      (hb : (windowedMgr cfg env ctx.mgr p).breaker.tryAdmit.1 = true)
      (hrow : f.record ∈ (windowedMgr cfg env ctx.mgr p).journal.finds.rows)
      (hpending : f.record.status = .pending)
      (hres : f.res = env.submit)
      (hc : f.c = classify (if f.res.transportOk then f.res.httpStatus else TRANSPORT_ERROR)
        f.res.body f.record.payload.kind f.res.retryAfter) :
      Posted cfg env ctx (.ok f,
        ⟨{ windowedMgr cfg env ctx.mgr p with
            breaker := (windowedMgr cfg env ctx.mgr p).breaker.tryAdmit.2
            serverOffsetMs := o },
          ctx.events,
          ctx.trace ++ [.verify f.record (windowedMgr cfg env ctx.mgr p).breaker.tryAdmit.2.state]⟩)

theorem submitPost_posted (ctx : StepCtx) : Posted cfg env ctx (submitPost cfg env ctx) := by
  unfold submitPost
  dsimp only
  by_cases hlt : env.mono .gate < ctx.mgr.nextSubmitAllowedMs
  · rw [if_pos hlt]; exact .paced hlt
  have hgate := not_lt.1 hlt
  rcases hw : ctx.mgr.trackWindow cfg (env.wall .window) with ⟨window, m⟩
  have hm : (ctx.mgr.trackWindow cfg (env.wall .window)).2 = m := by rw [hw]
  rw [if_neg hlt]
  by_cases hq : env.mono .gate < m.quiesceUntilMs
  · rw [if_pos hq, ← hm]; exact .held hgate
  rw [if_neg hq]
  obtain ⟨⟨p, hp⟩, hsel⟩ := @selectRecord_spec cfg env m window
  have hmgr : windowedMgr cfg env ctx.mgr p = (selectRecord cfg env window m).2 := by
    rw [hp, ← hm]; rfl
  rcases hs : selectRecord cfg env window m with ⟨r, m'⟩
  rw [hs] at hmgr hsel
  dsimp only at hmgr
  cases r with
  | none =>
    dsimp only
    rw [← hmgr]
    exact .nothing hgate p
  | some r =>
    dsimp only
    rcases ha : m'.breaker.tryAdmit with ⟨admitted, b⟩
    have hb : b = (windowedMgr cfg env ctx.mgr p).breaker.tryAdmit.2 := by rw [hmgr, ha]
    cases admitted with
    | false =>
      rw [hb, ← hmgr]
      exact .blocked hgate p (by rw [hmgr, ha])
    | true =>
      obtain ⟨hrow, hpend⟩ := hsel r rfl
      obtain ⟨o, ho⟩ := trackServerDate_eq (m := { m' with breaker := b }) env.submit
        (env.wall .submitDate)
      have hrow' : r ∈ (windowedMgr cfg env ctx.mgr p).journal.finds.rows := by
        rw [hmgr]
        have : m'.journal = m.journal := by rw [← show _ = m' from congrArg Prod.snd hs, hp]
        rw [this]
        exact hrow
      have := @Posted.sent _ _ ctx hgate p o
        ⟨r, b.state = .closed, env.mono .gate, env.submit,
          classify (if env.submit.transportOk then env.submit.httpStatus else TRANSPORT_ERROR)
            env.submit.body r.payload.kind env.submit.retryAfter⟩
        (by rw [hmgr, ha]) hrow' hpend rfl rfl
      rw [hmgr, ha] at this
      simpa [StepCtx.withBreaker, StepCtx.withMgr, StepCtx.act, ho] using this

theorem posted_of_eq {ctx : StepCtx} {p : Except StepResult Inflight × StepCtx}
    (h : submitPost cfg env ctx = p) : Posted cfg env ctx p := h ▸ submitPost_posted ctx

theorem Posted.events {ctx : StepCtx} {p : Except StepResult Inflight × StepCtx}
    (h : Posted cfg env ctx p) : p.2.events = ctx.events := by
  cases h <;> rfl

/-- What the inline lookup makes of a classification. -/
inductive Settled (env : StepEnv) (f : Inflight) : Classification → Prop
  | asked (hn : f.c.needsLookupConfirmation = false) : Settled env f f.c
  | acked (c : Classification) (hn : f.c.needsLookupConfirmation = true)
      (h200 : isHttp200 env.confirm = true)
      (hbody : confirmationMatches f.record env.confirm.body = .confirmed)
      (hs : c.nextStatus = .acked) : Settled env f c
  | absent (c : Classification) (hn : f.c.needsLookupConfirmation = true)
      (hs : c.nextStatus = .pending) : Settled env f c
  | unproven (c : Classification) (hn : f.c.needsLookupConfirmation = true)
      (hs : c.nextStatus = f.c.nextStatus) : Settled env f c

theorem settle_settled (f : Inflight) : Settled env f (settle cfg env f).1 := by
  unfold settle
  cases hn : f.c.needsLookupConfirmation with
  | false => exact .asked hn
  | true =>
    rw [if_pos rfl]
    unfold confirmInline
    split_ifs with h200 h404
    · cases hb : confirmationMatches f.record env.confirm.body with
      | confirmed => exact .acked _ hn h200 hb rfl
      | malformed => exact .unproven _ hn rfl
      | keyMismatch => exact .unproven _ hn rfl
      | hashMismatch => exact .unproven _ hn rfl
    · exact .absent _ hn rfl
    · exact .unproven _ hn rfl

/-- The lookup's trace entry, when one was made. -/
def lookupTrace (env : StepEnv) (f : Inflight) : List Action :=
  if f.c.needsLookupConfirmation then [.getBlock f.record env.confirm] else []

theorem submitConfirm_eq (f : Inflight) (ctx : StepCtx) :
    ∃ o, submitConfirm env f ctx =
      ⟨{ ctx.mgr with serverOffsetMs := o }, ctx.events, ctx.trace ++ lookupTrace env f⟩ := by
  unfold submitConfirm lookupTrace
  split_ifs
  · obtain ⟨o, ho⟩ := trackServerDate_eq (m := ctx.mgr) env.confirm (env.wall .confirmDate)
    exact ⟨o, by simp [StepCtx.withMgr, StepCtx.act, ho]⟩
  · exact ⟨ctx.mgr.serverOffsetMs, by simp⟩

/-- The breaker after one report. -/
def reported (env : StepEnv) (b : CircuitBreaker) : VerifyOutcome → CircuitBreaker
  | .success => b.onVerifySuccess
  | .transportFailure => b.onVerifyTransportFailure (env.mono .schedule) env.jitter
  | .inconclusive => b.onVerifyInconclusive

theorem reportOutcome_breaker (f : Inflight) (c : Classification) :
    (reportOutcome env f c m).breaker = reported env m.breaker (verifyOutcome f c) := by
  unfold reportOutcome reported
  cases verifyOutcome f c <;> rfl

theorem reportOutcome_keeps (f : Inflight) (c : Classification) :
    (reportOutcome env f c m).journal = m.journal ∧
    (reportOutcome env f c m).lastDifficulty = m.lastDifficulty ∧
    (reportOutcome env f c m).lastWindowOpen = m.lastWindowOpen ∧
    (reportOutcome env f c m).fatal = m.fatal := by
  unfold reportOutcome
  cases verifyOutcome f c <;> exact ⟨rfl, rfl, rfl, rfl⟩

/-- A recorded attempt: the row it wrote, the report it made, and what it left alone. -/
structure Recorded (cfg : Config) (env : StepEnv) (f : Inflight) (ctx ctx' : StepCtx) : Prop where
  rows : ∃ http body next now, ctx'.mgr.journal.finds.rows =
    ctx.mgr.journal.finds.rows.map (Finds.attemptAt f.record.id (settle cfg env f).1 http body
      next now)
  breaker : ctx'.mgr.breaker =
    reported env ctx.mgr.breaker (verifyOutcome f (settle cfg env f).1)
  trace : ctx'.trace = ctx.trace ++ lookupTrace env f ++
    [.report (verifyOutcome f (settle cfg env f).1)]
  hints : ∀ d, .difficultyHint d ∈ ctx'.events ↔ .difficultyHint d ∈ ctx.events
  lastDifficulty : ctx'.mgr.lastDifficulty = ctx.mgr.lastDifficulty
  window : ctx'.mgr.lastWindowOpen = ctx.mgr.lastWindowOpen
  fatal : ctx'.mgr.fatal = ctx.mgr.fatal

/-- A journaled row's attempt is always recorded. -/
theorem submitRecord_spec {f : Inflight} {ctx : StepCtx}
    (hc : (settle cfg env f).1.nextStatus ≠ .submitting)
    (hi : ctx.mgr.journal.finds.HasId f.record.id) :
    (submitRecord cfg env f ctx).1 = .ok .submitted ∧
      Recorded cfg env f ctx (submitRecord cfg env f ctx).2 := by
  obtain ⟨o, ho⟩ := @submitConfirm_eq env f ctx
  obtain ⟨t', ht, hrows⟩ := @Finds.recordAttempt_ok _ _ _ (answeredStatus f.res) f.res.body
    (nextAttempt cfg env f (settle cfg env f).1 (settle cfg env f).2)
    (isoUtc (env.wall .attemptAt)) hc hi
  unfold submitRecord
  simp only [ho, ht]
  obtain ⟨hj, hd, hw, hf⟩ := @reportOutcome_keeps env
    (SubmissionManager.setFinds { ctx.mgr with serverOffsetMs := o } t') f (settle cfg env f).1
  refine ⟨trivial, ⟨answeredStatus f.res, f.res.body,
    nextAttempt cfg env f (settle cfg env f).1 (settle cfg env f).2,
    isoUtc (env.wall .attemptAt), ?_⟩, reportOutcome_breaker f _, by simp, fun d => ?_, hd, hw, hf⟩
  · rw [← hrows]
    exact congrArg (fun j => j.finds.rows) hj
  · simp [StepCtx.push, StepCtx.act, StepCtx.withMgr]

theorem settle_ne_submitting {f : Inflight} {kind : FindKind} (h : Classified kind f.c) :
    (settle cfg env f).1.nextStatus ≠ .submitting := by
  have hf := h.ne_submitting
  have hset := @settle_settled cfg env f
  generalize (settle cfg env f).1 = c at hset ⊢
  cases hset with
  | asked => exact hf
  | acked c hn h200 hbody hs => rw [hs]; simp
  | absent c hn hs => rw [hs]; simp
  | unproven c hn hs => rw [hs]; exact hf

/-! ## The confirm step -/

/-- The three ends of a retried lookup. -/
theorem confirmRetry_cases (rec : FindRecord) (conf : TransportResult) (backoff : String) :
    ((confirmRetry rec conf backoff).1.nextStatus = .acked ∧ isHttp200 conf = true ∧
      confirmationMatches rec conf.body = .confirmed) ∨
    (confirmRetry rec conf backoff).1.nextStatus = .acceptedUnconfirmed ∨
    (confirmRetry rec conf backoff).1.nextStatus = .pending := by
  unfold confirmRetry
  split_ifs with h200 h404
  · cases hb : confirmationMatches rec conf.body with
    | confirmed => exact Or.inl ⟨rfl, h200, rfl⟩
    | malformed => exact Or.inr (Or.inl rfl)
    | keyMismatch => exact Or.inr (Or.inl rfl)
    | hashMismatch => exact Or.inr (Or.inl rfl)
  · exact Or.inr (Or.inr rfl)
  · exact Or.inr (Or.inl rfl)

/-- One recorded round of the confirm loop. -/
structure Retried (l : Lookup) (rec : FindRecord) (ctx ctx' : StepCtx) : Prop where
  rows : ∃ c http body next now, ctx'.mgr.journal.finds.rows =
      ctx.mgr.journal.finds.rows.map (Finds.attemptAt rec.id c http body next now) ∧
    ((c.nextStatus = .acked ∧ isHttp200 l.answer = true ∧
      confirmationMatches rec l.answer.body = .confirmed) ∨
      c.nextStatus = .acceptedUnconfirmed ∨ c.nextStatus = .pending)
  breaker : ctx'.mgr.breaker = ctx.mgr.breaker
  trace : ctx'.trace = ctx.trace ++ [.getBlock rec l.answer]
  hints : ∀ d, .difficultyHint d ∈ ctx'.events ↔ .difficultyHint d ∈ ctx.events
  lastDifficulty : ctx'.mgr.lastDifficulty = ctx.mgr.lastDifficulty
  window : ctx'.mgr.lastWindowOpen = ctx.mgr.lastWindowOpen
  fatal : ctx'.mgr.fatal = ctx.mgr.fatal

theorem confirmOne_spec {l : Lookup} {rec : FindRecord} {ctx : StepCtx}
    (hi : ctx.mgr.journal.finds.HasId rec.id) :
    (confirmOne cfg l rec ctx).1 = .ok () ∧ Retried l rec ctx (confirmOne cfg l rec ctx).2 := by
  obtain ⟨o, ho⟩ := trackServerDate_eq (m := ctx.mgr) l.answer l.dateAt
  have hcases := confirmRetry_cases rec l.answer
    (backoffTimeIso cfg rec.attemptCount none l.backoffAt)
  rcases hr : confirmRetry rec l.answer (backoffTimeIso cfg rec.attemptCount none l.backoffAt)
    with ⟨c, next⟩
  rw [hr] at hcases
  dsimp only at hcases
  have hne : c.nextStatus ≠ .submitting := by
    rcases hcases with ⟨h, -⟩ | h | h <;> simp [h]
  obtain ⟨t', ht, hrows⟩ := @Finds.recordAttempt_ok _ _ _ (answeredStatus l.answer)
    l.answer.body next (isoUtc l.attemptAt) hne hi
  unfold confirmOne
  simp only [act_mgr, ho, hr, withMgr_mgr, ht]
  exact ⟨trivial, ⟨c, _, _, _, _, hrows, hcases⟩, rfl, by simp, fun d => by
    simp [StepCtx.push, StepCtx.act, StepCtx.withMgr], rfl, rfl, rfl⟩

theorem Retried.hasId {l : Lookup} {rec : FindRecord} {ctx ctx' : StepCtx} {id : Int}
    (h : Retried l rec ctx ctx') (hi : ctx.mgr.journal.finds.HasId id) :
    ctx'.mgr.journal.finds.HasId id := by
  obtain ⟨c, http, body, next, now, hrows, -⟩ := h.rows
  exact hi.map hrows Finds.attemptAt_id

/-- The rounds the loop makes of a batch before it runs out or meets no answer. -/
inductive Rounds (lookups : Nat → Lookup) : Nat → List FindRecord → StepCtx → StepCtx → Prop
  | done (i : Nat) (batch : List FindRecord) (ctx : StepCtx) : Rounds lookups i batch ctx ctx
  | round {i : Nat} {rec : FindRecord} {rest : List FindRecord} {ctx ctx' ctx'' : StepCtx} :
      Retried (lookups i) rec ctx ctx' → Rounds lookups (i + 1) rest ctx' ctx'' →
      Rounds lookups i (rec :: rest) ctx ctx''

theorem confirmLoop_rounds (lookups : Nat → Lookup) (batch : List FindRecord) :
    ∀ (i : Nat) (ctx : StepCtx), (∀ r ∈ batch, ctx.mgr.journal.finds.HasId r.id) →
      (confirmLoop cfg lookups i batch ctx).1 = .ok () ∧
        Rounds lookups i batch ctx (confirmLoop cfg lookups i batch ctx).2 := by
  induction batch with
  | nil => exact fun i ctx _ => ⟨rfl, .done i [] ctx⟩
  | cons rec rest ih =>
    intro i ctx hids
    obtain ⟨hok, hone⟩ := @confirmOne_spec cfg (lookups i) _ _ (hids rec (by simp))
    rcases h1 : confirmOne cfg (lookups i) rec ctx with ⟨e, ctx'⟩
    rw [h1] at hok hone
    dsimp only at hok hone
    subst hok
    simp only [confirmLoop, h1]
    split_ifs
    · obtain ⟨hok, hrest⟩ := ih (i + 1) ctx' fun r hr => hone.hasId (hids r (by simp [hr]))
      exact ⟨hok, .round hone hrest⟩
    · exact ⟨rfl, .round hone (.done _ _ _)⟩

theorem Rounds.hints {lookups : Nat → Lookup} {i : Nat} {batch : List FindRecord}
    {ctx ctx' : StepCtx} (h : Rounds lookups i batch ctx ctx') (d : UInt32) :
    .difficultyHint d ∈ ctx'.events ↔ .difficultyHint d ∈ ctx.events := by
  induction h with
  | done => exact Iff.rfl
  | round hone _ ih => exact ih.trans (hone.hints d)

theorem confirmBatch_mem {r : FindRecord} (h : r ∈ confirmBatch cfg env m) :
    r ∈ m.journal.finds.rows ∧ r.status = .acceptedUnconfirmed :=
  @Finds.fetchByStatus_mem _ _ none (isoUtc (env.wall .awaiting)) cfg.confirmFetchLimit _ h

/-- The confirm step does nothing, or drives the rows awaiting confirmation. -/
theorem confirmStep_cases (ctx : StepCtx) :
    confirmStep cfg env ctx = (.ok .idle, ctx) ∨
    ∃ ctx', confirmStep cfg env ctx = (.ok .confirmRetried, ctx') ∧
      ctx.mgr.breaker.state ≠ .opened ∧
      Rounds env.lookups 0 (confirmBatch cfg env ctx.mgr) ctx ctx' := by
  unfold confirmStep
  dsimp only
  split_ifs with hopen hempty
  · exact Or.inl rfl
  · exact Or.inl rfl
  · right
    obtain ⟨hok, hrounds⟩ := @confirmLoop_rounds cfg env.lookups
      (confirmBatch cfg env ctx.mgr) 0 ctx fun r hr =>
        ⟨r, (confirmBatch_mem hr).1, rfl⟩
    rcases h : confirmLoop cfg env.lookups 0 (confirmBatch cfg env ctx.mgr) ctx with ⟨e, ctx'⟩
    rw [h] at hok hrounds
    dsimp only at hok hrounds
    subst hok
    exact ⟨ctx', rfl, hopen, hrounds⟩

/-! ## The whole step -/

/-- Every way a step can go: a probe, or a submission, ended early or recorded, and then
the confirm step. No way ends in a journal error. -/
inductive Stepped (cfg : Config) (env : StepEnv) (ctx : StepCtx) : StepResult → StepCtx → Prop
  | probe (r : StepResult) (ctx' : StepCtx) (hopen : ctx.mgr.breaker.state = .opened)
      (hp : probeStep cfg env (updateMargin cfg env ctx) = (r, ctx')) : Stepped cfg env ctx r ctx'
  | early (r r' rc : StepResult) (ctx1 ctx2 : StepCtx) (hopen : ctx.mgr.breaker.state ≠ .opened)
      (hp : submitPost cfg env (updateMargin cfg env ctx) = (.error r, ctx1))
      (hc : confirmStep cfg env ctx1 = (.ok rc, ctx2)) (hr : r' = r ∨ r' = rc) :
      Stepped cfg env ctx r' ctx2
  | submit (f : Inflight) (rc : StepResult) (ctx1 ctx2 ctx3 : StepCtx)
      (hopen : ctx.mgr.breaker.state ≠ .opened)
      (hp : submitPost cfg env (updateMargin cfg env ctx) = (.ok f, ctx1))
      (hrec : Recorded cfg env f (submitHint cfg env f ctx1) ctx2)
      (hc : confirmStep cfg env ctx2 = (.ok rc, ctx3)) : Stepped cfg env ctx .submitted ctx3

theorem Observed.hasId {d : UInt32} {m m' : SubmissionManager} {id : Int} (h : Observed d m m')
    (hi : m.journal.finds.HasId id) : m'.journal.finds.HasId id := by
  rw [h.finds]
  split_ifs
  · exact hi.map rfl (Finds.unparkedAt_id d)
  · exact hi

/-- The row on its way to the server stays journaled past the hint. -/
theorem hasId_submitHint {f : Inflight} {ctx : StepCtx}
    (hi : ctx.mgr.journal.finds.HasId f.record.id) :
    (submitHint cfg env f ctx).mgr.journal.finds.HasId f.record.id := by
  unfold submitHint
  cases f.c.serverDifficultyHint with
  | none => exact hi
  | some d => exact (noteDifficulty_spec d ctx).1.hasId hi

theorem runStep_stepped (ctx : StepCtx) :
    ∃ r ctx', runStep cfg env ctx = (.ok r, ctx') ∧ Stepped cfg env ctx r ctx' := by
  have hb := (@updateMargin_spec cfg env ctx).1.breaker
  unfold runStep
  dsimp only
  by_cases hopen : ctx.mgr.breaker.state = .opened
  · rw [if_pos (by rw [hb]; exact hopen)]
    exact ⟨_, _, rfl, .probe _ _ hopen rfl⟩
  rw [if_neg (by rw [hb]; exact hopen)]
  have hposted := @submitPost_posted cfg env (updateMargin cfg env ctx)
  unfold submitStep
  rcases hpost : submitPost cfg env (updateMargin cfg env ctx) with ⟨res, ctx1⟩
  rw [hpost] at hposted
  cases res with
  | error r =>
    dsimp only
    obtain ⟨rc, ctx2, hc⟩ : ∃ rc ctx2, confirmStep cfg env ctx1 = (.ok rc, ctx2) := by
      rcases @confirmStep_cases cfg env ctx1 with h | ⟨c, h, -⟩
      · exact ⟨_, _, h⟩
      · exact ⟨_, _, h⟩
    simp only [hc]
    split_ifs
    · exact ⟨_, _, rfl, .early r rc rc ctx1 ctx2 hopen hpost hc (Or.inr rfl)⟩
    · exact ⟨_, _, rfl, .early r r rc ctx1 ctx2 hopen hpost hc (Or.inl rfl)⟩
  | ok f =>
    dsimp only
    have hclass : Classified f.record.payload.kind f.c ∧
        ctx1.mgr.journal.finds.HasId f.record.id := by
      cases hposted with
      | sent h p o f' hb hrow hpending hres hc =>
        exact ⟨by rw [hc]; exact classify_spec _ _ _ _, ⟨f.record, hrow, rfl⟩⟩
    obtain ⟨hok, hrec⟩ := @submitRecord_spec cfg env _ _
      (settle_ne_submitting hclass.1) (@hasId_submitHint cfg env _ _ hclass.2)
    rcases hr : submitRecord cfg env f (submitHint cfg env f ctx1) with ⟨res, ctx2⟩
    rw [hr] at hok hrec
    dsimp only at hok hrec
    subst hok
    obtain ⟨rc, ctx3, hc⟩ : ∃ rc ctx3, confirmStep cfg env ctx2 = (.ok rc, ctx3) := by
      rcases @confirmStep_cases cfg env ctx2 with h | ⟨c, h, -⟩
      · exact ⟨_, _, h⟩
      · exact ⟨_, _, h⟩
    simp only [hc]
    exact ⟨_, _, by simp, .submit f rc ctx1 ctx2 ctx3 hopen hpost hrec hc⟩

/-- A live manager steps and stays live; a halted one does nothing. -/
theorem runOnce_cases (m : SubmissionManager) :
    (m.fatal = true ∧ runOnce cfg m env = (.idle, ⟨m, [], []⟩)) ∨
    (m.fatal = false ∧
      Stepped cfg env ⟨m, [], []⟩ (runOnce cfg m env).1 (runOnce cfg m env).2) := by
  unfold runOnce
  cases hf : m.fatal with
  | true => exact Or.inl ⟨rfl, rfl⟩
  | false =>
    obtain ⟨r, ctx', hr, hs⟩ := @runStep_stepped cfg env ⟨m, [], []⟩
    exact Or.inr ⟨rfl, by simpa [hr] using hs⟩

end SubmissionManager

end TreeMiner
