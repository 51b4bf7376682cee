import TreeMiner.Journal.Finds
import TreeMiner.Submit.Classifier
import TreeMiner.Submit.Drain

/-! The submission manager. A step reads the clocks and the server through `StepEnv`,
one reading for each place that asks; it changes the manager and the journal, leaves the
events to fire after the step and a trace of what it asked of the server and told the
breaker. Metrics and log lines are write-only and left out. -/

namespace TreeMiner

structure Config where
  fetchLimit : Nat
  confirmFetchLimit : Nat
  backoffBaseMs : Int
  backoffCapMs : Int
  xuniMaxWindows : Int
  breaker : BreakerConfig
  drain : DrainConfig
  margin : MarginConfig
  marginEvalIntervalMs : Int
  difficultyQuiesceMs : Int
deriving DecidableEq

def Config.default : Config :=
  ⟨16, 4, 2000, 300000, 3, .default, .default, .default, 5000, 5000⟩

def QUIESCE_MAX_MS : Int := 60000

inductive StepResult
  | idle
  | probed
  | submitted
  | breakerBlocked
  | confirmRetried
  | quiescing
deriving DecidableEq, Repr

/-- How a `/get_block` 200 body relates to the record it is supposed to confirm. -/
inductive ConfirmBodyCheck
  | confirmed
  | malformed
  | keyMismatch
  | hashMismatch
deriving DecidableEq, Repr

structure TransportResult where
  transportOk : Bool
  httpStatus : Int
  body : String
  retryAfter : Option String
  dateHeader : Option String
  error : String
deriving DecidableEq, Repr

def TransportResult.ok (httpStatus : Int) (body : String) : TransportResult :=
  ⟨true, httpStatus, body, none, none, ""⟩

def TransportResult.failed (error : String) : TransportResult := ⟨false, 0, "", none, none, error⟩

inductive Event
  | difficultyHint (difficulty : UInt32)
  | outcome (rec : FindRecord) (c : Classification) (httpStatus : Option Int)
  | networkState (state : BreakerState)
  | margin (kib : Nat)
deriving DecidableEq, Repr

inductive VerifyOutcome
  | success
  | transportFailure
  | inconclusive
deriving DecidableEq, Repr

/-- What a step asked of the server and told the breaker, in order. -/
inductive Action
  | verify (rec : FindRecord) (breaker : BreakerState)
  | report (outcome : VerifyOutcome)
  | getBlock (rec : FindRecord) (answer : TransportResult)
deriving DecidableEq, Repr

/-- Where a step reads the monotonic clock. -/
inductive MonoSite
  | margin
  | probeDue
  | schedule
  | gate
  | pressure
  | quiesce
deriving DecidableEq, Repr

/-- Where a step reads the wall clock, the lookups of the confirm step apart. -/
inductive WallSite
  | healthDate
  | probeDate
  | difficultyAt
  | window
  | nowIso
  | submitDate
  | confirmDate
  | backoff
  | attemptAt
  | awaiting
deriving DecidableEq, Repr

/-- One `/get_block` retry: the answer and the wall readings around it. -/
structure Lookup where
  answer : TransportResult
  dateAt : Int
  backoffAt : Int
  attemptAt : Int
deriving DecidableEq, Repr

/-- What one step gets from outside, should it ask. -/
structure StepEnv where
  mono : MonoSite → Int
  wall : WallSite → Int
  jitter : ℚ
  health : Option TransportResult
  difficulty : TransportResult
  submit : TransportResult
  confirm : TransportResult
  lookups : Nat → Lookup

structure SubmissionManager where
  journal : Journal
  breaker : CircuitBreaker
  scheduler : DrainScheduler
  nextSubmitAllowedMs : Int
  lastWindowOpen : Bool
  lastMarginEvalMs : Int
  marginEvalStarted : Bool
  lastDifficulty : Option UInt32
  trend : Option DifficultyTrend
  serverOffsetMs : Option Int
  marginKib : Nat
  /-- 0 = the `/verify` path is not open -/
  outageStartedMs : Int
  lastOutageSpanMs : Int
  quiesceUntilMs : Int
  fatal : Bool

/-- The manager with what the running step has produced so far. -/
structure StepCtx where
  mgr : SubmissionManager
  events : List Event
  trace : List Action

namespace StepCtx

def push (ctx : StepCtx) (e : Event) : StepCtx := { ctx with events := ctx.events ++ [e] }

def act (ctx : StepCtx) (a : Action) : StepCtx := { ctx with trace := ctx.trace ++ [a] }

def withMgr (ctx : StepCtx) (m : SubmissionManager) : StepCtx := { ctx with mgr := m }

def withBreaker (ctx : StepCtx) (b : CircuitBreaker) : StepCtx :=
  ctx.withMgr { ctx.mgr with breaker := b }

end StepCtx

/-! ## Confirmation bodies and backoff -/

/-- Does a `/get_block` 200 body actually describe the record? -/
def confirmationMatches (rec : FindRecord) (body : String) : ConfirmBodyCheck :=
  match extractJsonField body "key" with
  | none => .malformed
  | some key =>
    if key ≠ rec.payload.key then .keyMismatch
    else
      match extractJsonField body "hash_to_verify" with
      | some hash => if hash ≠ rec.payload.hashToVerify then .hashMismatch else .confirmed
      | none => .confirmed

def confirmRejectReason : ConfirmBodyCheck → String
  | .keyMismatch => "/get_block 200 body describes a different key — not a confirmation of this " ++
      "record, remaining unconfirmed"
  | .hashMismatch => "/get_block 200 has our key but a DIFFERENT hash_to_verify — refusing to " ++
      "ack, remaining unconfirmed"
  | _ => "/get_block 200 body malformed or missing key — untrusted, remaining unconfirmed"

def probeResponseHealthy (r : TransportResult) : Bool :=
  r.transportOk && r.httpStatus = 200 && !isTrimEmpty r.body

/-- Doubled once for each attempt, for as long as it is below the cap. -/
def doubleWhile (cap : Int) : Nat → Int → Int
  | 0, delay => delay
  | n + 1, delay => if delay < cap then doubleWhile cap n (delay * 2) else delay

def backoffTimeIso (cfg : Config) (attemptCount : Int) (retryAfterS : Option Int) (wall : Int) :
    String :=
  let delay := match retryAfterS with
    | some secs => secs * 1000
    | none => doubleWhile cfg.backoffCapMs attemptCount.toNat cfg.backoffBaseMs
  isoUtc (wall + min delay cfg.backoffCapMs)

namespace SubmissionManager

def new (cfg : Config) (journal : Journal) : SubmissionManager where
  journal := journal
  breaker := .new cfg.breaker
  scheduler := .new cfg.drain
  nextSubmitAllowedMs := 0
  lastWindowOpen := false
  lastMarginEvalMs := 0
  marginEvalStarted := false
  lastDifficulty := none
  trend := none
  serverOffsetMs := none
  marginKib := 0
  outageStartedMs := 0
  lastOutageSpanMs := 0
  quiesceUntilMs := 0
  fatal := false

def setFinds (m : SubmissionManager) (t : Finds) : SubmissionManager :=
  { m with journal := { m.journal with finds := t } }

def difficultyTrend (m : SubmissionManager) : DifficultyTrend := m.trend.getD .unknown

/-- Every candidate deadline is one clamped hold away; the latest wins. -/
def armQuiesce (cfg : Config) (m : SubmissionManager) (mono : Int) : SubmissionManager :=
  let hold := max 0 (min cfg.difficultyQuiesceMs QUIESCE_MAX_MS)
  if hold = 0 then m else { m with quiesceUntilMs := max m.quiesceUntilMs (mono + hold) }

def trendAfter (m : SubmissionManager) (difficulty : UInt32) : Option DifficultyTrend :=
  match m.lastDifficulty with
  | some prev =>
    some (if difficulty > prev then .rising else if difficulty < prev then .falling else .flat)
  | none => m.trend

/-- The floor fell, or this is the first observation of the process. -/
def requalifies (m : SubmissionManager) (difficulty : UInt32) : Bool :=
  match m.lastDifficulty with
  | some prev => decide (difficulty < prev)
  | none => true

/-- `observe_difficulty`, which the poller calls too. -/
def observeDifficulty (cfg : Config) (m : SubmissionManager) (difficulty : UInt32) (mono : Int) :
    SubmissionManager :=
  let changed := m.lastDifficulty.any (· ≠ difficulty)
  let unpark := m.requalifies difficulty
  let m := { m with trend := m.trendAfter difficulty, lastDifficulty := some difficulty }
  let m := if changed then m.armQuiesce cfg mono else m
  if unpark then m.setFinds (m.journal.finds.unparkForDifficulty difficulty) else m

def trackServerDate (m : SubmissionManager) (r : TransportResult) (wall : Int) :
    SubmissionManager :=
  if !r.transportOk then m
  else
    match r.dateHeader.bind parseHttpDateMs with
    | some serverMs => { m with serverOffsetMs := some (serverMs - wall) }
    | none => m

/-- The outage clock of `update_margin`: it runs while the breaker is open. -/
def ageOutage (m : SubmissionManager) (now : Int) : SubmissionManager :=
  if m.breaker.state = .opened then
    { m with outageStartedMs := if m.outageStartedMs = 0 then now else m.outageStartedMs }
  else
    { m with
      lastOutageSpanMs := if m.outageStartedMs ≠ 0 then max (now - m.outageStartedMs) 0
        else m.lastOutageSpanMs
      outageStartedMs := 0 }

def marginInputs (cfg : Config) (m : SubmissionManager) (now : Int) : MarginInputs where
  breakerOpen := m.breaker.state = .opened
  outageMs := if m.breaker.state = .opened then now - m.outageStartedMs else 0
  backlog := if cfg.margin.mode = .auto then m.journal.finds.backlog else 0

/-- Headroom is re-evaluated first, so that the outage clock advances on every step. -/
def updateMargin (cfg : Config) (env : StepEnv) (ctx : StepCtx) : StepCtx :=
  let now := env.mono .margin
  let m := ctx.mgr.ageOutage now
  if cfg.margin.mode = .off then ctx.withMgr m
  else if m.marginEvalStarted && decide (now - m.lastMarginEvalMs < cfg.marginEvalIntervalMs) then
    ctx.withMgr m
  else
    let m := { m with lastMarginEvalMs := now, marginEvalStarted := true }
    let next := computeMargin cfg.margin (m.marginInputs cfg now)
    if next = m.marginKib then ctx.withMgr m
    else (ctx.withMgr { m with marginKib := next }).push (.margin next)

/-- A difficulty learnt from the server: observed, logged in the journal, hinted out. -/
def noteDifficulty (cfg : Config) (env : StepEnv) (d : UInt32) (ctx : StepCtx) : StepCtx :=
  let m := ctx.mgr.observeDifficulty cfg d (env.mono .quiesce)
  let m := { m with journal := m.journal.recordDifficulty d (isoUtc (env.wall .difficultyAt)) }
  (ctx.withMgr m).push (.difficultyHint d)

/-- `true` when the body carried a difficulty that could be recorded. -/
def handleDifficultyBody (cfg : Config) (env : StepEnv) (body : String) (ctx : StepCtx) :
    Bool × StepCtx :=
  match (extractJsonField body "difficulty").bind fun field => parseDifficultyHint s!"m={field}" with
  | none => (false, ctx)
  | some d => (true, noteDifficulty cfg env d ctx)

/-- The dedicated health route: is it healthy, and did its body carry a difficulty? -/
def probeHealth (cfg : Config) (env : StepEnv) (ctx : StepCtx) : Bool × Bool × StepCtx :=
  match env.health with
  | none => (false, false, ctx)
  | some h =>
    let ctx := ctx.withMgr (ctx.mgr.trackServerDate h (env.wall .healthDate))
    if probeResponseHealthy h then (true, handleDifficultyBody cfg env h.body ctx)
    else (false, false, ctx)

/-- `/difficulty`, asked unless the health route was healthy and carried a difficulty. -/
def probeDifficulty (cfg : Config) (env : StepEnv) (healthy seen : Bool) (ctx : StepCtx) :
    Bool × StepCtx :=
  if !healthy || !seen then
    let ctx := ctx.withMgr (ctx.mgr.trackServerDate env.difficulty (env.wall .probeDate))
    if probeResponseHealthy env.difficulty then
      (true, (handleDifficultyBody cfg env env.difficulty.body ctx).2)
    else (healthy, ctx)
  else (healthy, ctx)

def probeStep (cfg : Config) (env : StepEnv) (ctx : StepCtx) : StepResult × StepCtx :=
  if !ctx.mgr.breaker.probeDue (env.mono .probeDue) then (.idle, ctx)
  else
    let (healthy, seen, ctx) := probeHealth cfg env ctx
    let (healthy, ctx) := probeDifficulty cfg env healthy seen ctx
    let breaker := if healthy then ctx.mgr.breaker.onProbeSuccess
      else ctx.mgr.breaker.onProbeFailure (env.mono .schedule) env.jitter
    (.probed, (ctx.withBreaker breaker).push (.networkState breaker.state))

/-! ## The submit step: POST, hint, record -/

/-- A row on its way to the server and what came back. -/
structure Inflight where
  record : FindRecord
  wasClosed : Bool
  nowMono : Int
  res : TransportResult
  c : Classification
deriving DecidableEq, Repr

/-- The window bookkeeping of `submit_step`, on the server's clock where the offset is
known: a window that just opened un-parks the XUNI with budget left. -/
def trackWindow (cfg : Config) (m : SubmissionManager) (wall : Int) :
    XuniWindowState × SubmissionManager :=
  let window := xuniWindowAt (wall + m.serverOffsetMs.getD 0)
  let m := if window.isOpen && !m.lastWindowOpen then
      m.setFinds (m.journal.finds.unparkXuniForWindow cfg.xuniMaxWindows)
    else m
  (window, { m with lastWindowOpen := window.isOpen })

/-- Fetch per kind, tell the breaker about XUNI pressure, pick a record. -/
def selectRecord (cfg : Config) (env : StepEnv) (window : XuniWindowState)
    (m : SubmissionManager) : Option FindRecord × SubmissionManager :=
  let nowIso := isoUtc (env.wall .nowIso)
  let xen11 := m.journal.finds.fetchEligibleOfKind .xen11 nowIso cfg.fetchLimit
  let xuni := if window.isOpen then
      m.journal.finds.fetchEligibleOfKind .xuni nowIso cfg.fetchLimit else []
  let m := { m with breaker := m.breaker.setXuniPressure (!xuni.isEmpty) (env.mono .pressure) }
  let eligible := xen11 ++ xuni
  if eligible.isEmpty then (none, m)
  else (m.scheduler.selectNext eligible m.difficultyTrend window, m)

/-- `submit_step` up to the answer of `/verify` and its classification, or its early end. -/
def submitPost (cfg : Config) (env : StepEnv) (ctx : StepCtx) :
    Except StepResult Inflight × StepCtx :=
  let nowMono := env.mono .gate
  if nowMono < ctx.mgr.nextSubmitAllowedMs then (.error .idle, ctx)
  else
    let (window, m) := ctx.mgr.trackWindow cfg (env.wall .window)
    if nowMono < m.quiesceUntilMs then (.error .quiescing, ctx.withMgr m)
    else
      match selectRecord cfg env window m with
      | (none, m) => (.error .idle, ctx.withMgr m)
      | (some rec, m) =>
        let (admitted, breaker) := m.breaker.tryAdmit
        let ctx := (ctx.withMgr m).withBreaker breaker
        if !admitted then (.error .breakerBlocked, ctx)
        else
          let res := env.submit
          let ctx := ctx.act (.verify rec breaker.state)
          let ctx := ctx.withMgr (ctx.mgr.trackServerDate res (env.wall .submitDate))
          let status := if res.transportOk then res.httpStatus else TRANSPORT_ERROR
          (.ok
            { record := rec
              wasClosed := breaker.state = .closed
              nowMono := nowMono
              res := res
              c := classify status res.body rec.payload.kind res.retryAfter }, ctx)

/-- The difficulty hint of a 401 body, observed before the row is recorded. -/
def submitHint (cfg : Config) (env : StepEnv) (f : Inflight) (ctx : StepCtx) : StepCtx :=
  match f.c.serverDifficultyHint with
  | none => ctx
  | some hint => noteDifficulty cfg env hint ctx

def isHttp200 (r : TransportResult) : Bool := r.transportOk && r.httpStatus = 200

/-- The inline confirmation of a 200 or a duplicate: the classification and the backed-off
next attempt. -/
def confirmInline (rec : FindRecord) (conf : TransportResult) (backoff : String)
    (c : Classification) : Classification × Option String :=
  if isHttp200 conf then
    match confirmationMatches rec conf.body with
    | .confirmed =>
      ({ c with
          nextStatus := .acked
          needsLookupConfirmation := false
          reason := c.reason ++ "; confirmed via /get_block (body matches key)" }, none)
    | check => ({ c with reason := c.reason ++ "; " ++ confirmRejectReason check }, some backoff)
  else if conf.transportOk && conf.httpStatus = 404 then
    ({ c with
        nextStatus := .pending
        needsLookupConfirmation := false
        reason := c.reason ++
          "; /get_block says ABSENT — server 200 was not durable, resubmitting" }, some backoff)
  else ({ c with reason := c.reason ++ "; /get_block unavailable, remaining unconfirmed" },
    some backoff)

/-- The classification and next attempt behind the lookup of `submit_step`, which is made
only when the classification of the answer asks for it. -/
def settle (cfg : Config) (env : StepEnv) (f : Inflight) : Classification × Option String :=
  if f.c.needsLookupConfirmation then
    confirmInline f.record env.confirm
      (backoffTimeIso cfg f.record.attemptCount none (env.wall .backoff)) f.c
  else (f.c, none)

def submitConfirm (env : StepEnv) (f : Inflight) (ctx : StepCtx) : StepCtx :=
  if f.c.needsLookupConfirmation then
    let ctx := ctx.act (.getBlock f.record env.confirm)
    ctx.withMgr (ctx.mgr.trackServerDate env.confirm (env.wall .confirmDate))
  else ctx

/-- The retry time of a row that stays pending without a lookup's backoff. -/
def nextAttempt (cfg : Config) (env : StepEnv) (f : Inflight) (c : Classification)
    (next : Option String) : Option String :=
  if c.nextStatus = .pending ∧ next = none then
    let retryAfterS := if f.res.transportOk ∧ f.res.httpStatus = 429 then
        f.res.retryAfter.bind parseRetryAfterSeconds else none
    some (backoffTimeIso cfg f.record.attemptCount retryAfterS (env.wall .backoff))
  else next

def isTransportFailure (r : TransportResult) : Bool :=
  !r.transportOk || decide (r.httpStatus ≥ 500) || r.httpStatus = 408 || r.httpStatus = 425 ||
    isTrimEmpty r.body

/-- How `submit_step` judges its attempt for the breaker. -/
def verifyOutcome (f : Inflight) (c : Classification) : VerifyOutcome :=
  if c.nextStatus = .acked ∨ c.nextStatus = .acceptedUnconfirmed then .success
  else if isTransportFailure f.res then .transportFailure
  else .inconclusive

/-- The breaker and pacing update behind a recorded attempt. -/
def reportOutcome (env : StepEnv) (f : Inflight) (c : Classification) (m : SubmissionManager) :
    SubmissionManager :=
  match verifyOutcome f c with
  | .success =>
    { m with
      breaker := m.breaker.onVerifySuccess
      scheduler := if f.wasClosed then m.scheduler.onHealthyRoundTrip
        else m.scheduler.onBreakerClose }
  | .transportFailure =>
    { m with
      breaker := m.breaker.onVerifyTransportFailure (env.mono .schedule) env.jitter
      scheduler := m.scheduler.onThrottle }
  | .inconclusive =>
    { m with
      breaker := m.breaker.onVerifyInconclusive
      scheduler := if f.res.httpStatus = 429 then m.scheduler.onThrottle
        else m.scheduler.onHealthyRoundTrip }

def answeredStatus (r : TransportResult) : Option Int :=
  if r.transportOk then some r.httpStatus else none

/-- The rest of `submit_step`: confirm, record the attempt, tell the breaker. -/
def submitRecord (cfg : Config) (env : StepEnv) (f : Inflight) (ctx : StepCtx) :
    Except JournalError StepResult × StepCtx :=
  let (c, next) := settle cfg env f
  let ctx := submitConfirm env f ctx
  match ctx.mgr.journal.finds.recordAttempt f.record.id c (answeredStatus f.res) f.res.body
      (nextAttempt cfg env f c next) (isoUtc (env.wall .attemptAt)) with
  | .error e => (.error e, ctx)
  | .ok finds =>
    let m := reportOutcome env f c (ctx.mgr.setFinds finds)
    let ctx := ((ctx.withMgr m).act (.report (verifyOutcome f c))).push
      (.networkState m.breaker.state)
    let m := { m with nextSubmitAllowedMs := f.nowMono + m.scheduler.submitIntervalMs }
    (.ok .submitted, (ctx.withMgr m).push (.outcome f.record c (answeredStatus f.res)))

def submitStep (cfg : Config) (env : StepEnv) (ctx : StepCtx) :
    Except JournalError StepResult × StepCtx :=
  match submitPost cfg env ctx with
  | (.error r, ctx) => (.ok r, ctx)
  | (.ok f, ctx) => submitRecord cfg env f (submitHint cfg env f ctx)

/-! ## The confirm step -/

/-- The classification a retried lookup ends in. -/
def confirmRetry (rec : FindRecord) (conf : TransportResult) (backoff : String) :
    Classification × Option String :=
  if isHttp200 conf then
    match confirmationMatches rec conf.body with
    | .confirmed =>
      (⟨.acked, none, false, "confirmed via /get_block (retry, body matches key)"⟩, none)
    | check => (⟨.acceptedUnconfirmed, none, false, confirmRejectReason check⟩, some backoff)
  else if conf.transportOk && conf.httpStatus = 404 then
    (⟨.pending, none, false,
      "/get_block says ABSENT — server 200 was not durable, resubmitting"⟩, some backoff)
  else (⟨.acceptedUnconfirmed, none, false,
    "/get_block unavailable, remaining unconfirmed (retry backoff)"⟩, some backoff)

/-- One round of the loop of `confirm_step`. -/
def confirmOne (cfg : Config) (l : Lookup) (rec : FindRecord) (ctx : StepCtx) :
    Except JournalError Unit × StepCtx :=
  let ctx := ctx.act (.getBlock rec l.answer)
  let ctx := ctx.withMgr (ctx.mgr.trackServerDate l.answer l.dateAt)
  let (c, next) := confirmRetry rec l.answer (backoffTimeIso cfg rec.attemptCount none l.backoffAt)
  match ctx.mgr.journal.finds.recordAttempt rec.id c (answeredStatus l.answer) l.answer.body next
      (isoUtc l.attemptAt) with
  | .error e => (.error e, ctx)
  | .ok finds =>
    (.ok (), (ctx.withMgr (ctx.mgr.setFinds finds)).push
      (.outcome rec c (answeredStatus l.answer)))

/-- The loop; a lookup without an answer ends it. -/
def confirmLoop (cfg : Config) (lookups : Nat → Lookup) : Nat → List FindRecord → StepCtx →
    Except JournalError Unit × StepCtx
  | _, [], ctx => (.ok (), ctx)
  | i, rec :: rest, ctx =>
    match confirmOne cfg (lookups i) rec ctx with
    | (.error e, ctx) => (.error e, ctx)
    | (.ok (), ctx) =>
      if (lookups i).answer.transportOk then confirmLoop cfg lookups (i + 1) rest ctx
      else (.ok (), ctx)

def confirmBatch (cfg : Config) (env : StepEnv) (m : SubmissionManager) : List FindRecord :=
  m.journal.finds.fetchAwaitingConfirmation (isoUtc (env.wall .awaiting)) cfg.confirmFetchLimit

def confirmStep (cfg : Config) (env : StepEnv) (ctx : StepCtx) :
    Except JournalError StepResult × StepCtx :=
  if ctx.mgr.breaker.state = .opened then (.ok .idle, ctx)
  else
    let batch := confirmBatch cfg env ctx.mgr
    if batch.isEmpty then (.ok .idle, ctx)
    else
      match confirmLoop cfg env.lookups 0 batch ctx with
      | (.error e, ctx) => (.error e, ctx)
      | (.ok (), ctx) => (.ok .confirmRetried, ctx)

/-! ## One scheduling step -/

def runStep (cfg : Config) (env : StepEnv) (ctx : StepCtx) :
    Except JournalError StepResult × StepCtx :=
  let ctx := updateMargin cfg env ctx
  if ctx.mgr.breaker.state = .opened then
    let (r, ctx) := probeStep cfg env ctx
    (.ok r, ctx)
  else
    match submitStep cfg env ctx with
    | (.error e, ctx) => (.error e, ctx)
    | (.ok submitResult, ctx) =>
      match confirmStep cfg env ctx with
      | (.error e, ctx) => (.error e, ctx)
      | (.ok confirmResult, ctx) =>
        if (submitResult = .idle ∨ submitResult = .quiescing) ∧ confirmResult ≠ .idle then
          (.ok confirmResult, ctx)
        else (.ok submitResult, ctx)

/-- The fatal-error boundary. A journal error drops the step's events and halts the
manager for good. -/
def runOnce (cfg : Config) (m : SubmissionManager) (env : StepEnv) : StepResult × StepCtx :=
  if m.fatal then (.idle, ⟨m, [], []⟩)
  else
    match runStep cfg env ⟨m, [], []⟩ with
    | (.ok r, ctx) => (r, ctx)
    | (.error _, ctx) => (.idle, ⟨{ ctx.mgr with fatal := true }, [], ctx.trace⟩)

end SubmissionManager

/-- The manager after one scheduling step. -/
def stepMgr (cfg : Config) (m : SubmissionManager) (env : StepEnv) : SubmissionManager :=
  (m.runOnce cfg env).2.mgr

/-! ## Concrete runs -/

/-- Every clock reads `now`, and no request is answered. -/
def StepEnv.silent (now : Int) : StepEnv where
  mono := fun _ => now
  wall := fun _ => now
  jitter := 0
  health := none
  difficulty := .failed ""
  submit := .failed ""
  confirm := .failed ""
  lookups := fun _ => ⟨.failed "", now, now, now⟩

def FoundPayload.sample (key : String) (kind : FindKind) (memoryCost : UInt32) : FoundPayload :=
  ⟨key, "hash", "account", kind, memoryCost, "worker", 1, ⟨0⟩, "2026-01-01T00:00:00Z"⟩

/-- The journal of some captures. -/
def Journal.ofCaptures (captures : List FoundPayload) : Journal :=
  ⟨captures.foldl (fun t p => (t.append p).2) .empty, []⟩

end TreeMiner
