import TreeMiner.Lib.Run
import TreeMiner.Submit.Admission

/-! The difficulty the mining threads read. Three paths write it: the poller, the probe
bodies and the 401 hints. Only the poller checks the range. -/

namespace TreeMiner

open Lib SubmissionManager

def POOL_DOWN_FAILURE_THRESHOLD : Nat := 3

/-- The range `difficulty.rs` accepts, as 64-bit values. -/
def DIFFICULTY_MIN : Int := 1

def DIFFICULTY_MAX : Int := 100000000

/-- `std::stoi`: leading whitespace, an optional sign, then as many digits as parse. -/
def stoi (text : String) : Option Int :=
  let cs := text.toList.dropWhile fun c => decide (c.toNat < 128) && isWhitespace c
  let (sign, rest) := match cs with
    | '+' :: rest => (['+'], rest)
    | '-' :: rest => (['-'], rest)
    | rest => ([], rest)
  let digits := rest.takeWhile isAsciiDigit
  if digits.isEmpty then none else parseI64 (sign ++ digits)

structure DifficultyShared where
  difficulty : UInt32
  endpointDown : Bool
deriving DecidableEq, Repr

/-- `GET /difficulty` as the poller reads it, with the source's error texts. -/
def fetchDifficulty (response : TransportResult) : Except String UInt32 :=
  if !response.transportOk then .error s!"Error: {response.error}"
  else if response.httpStatus ≠ 200 then
    .error s!"Error: Failed to get the difficulty: HTTP status code {response.httpStatus}"
  else
    match extractJsonField response.body "difficulty" with
    | none => .error "JSON parsing error: no 'difficulty' field in the response"
    | some field =>
      match stoi field with
      | none => .error ("Error: difficulty '" ++ field ++ "' is not a number")
      | some value =>
        if DIFFICULTY_MIN ≤ value ∧ value ≤ DIFFICULTY_MAX then .ok (UInt32.ofNat value.toNat)
        else .error ("Error: difficulty '" ++ field ++ "' is out of range")

/-- The submission manager beside the shared difficulty and the poller's failure count. -/
structure Miner where
  mgr : SubmissionManager
  shared : DifficultyShared
  consecutiveFailures : Nat

namespace Miner

def setDifficulty (s : Miner) (d : UInt32) : Miner :=
  { s with shared := { s.shared with difficulty := d } }

/-- One poll and the observer behind it. -/
def pollOnce (cfg : Config) (s : Miner) (response : TransportResult) (mono : Int) : Miner :=
  match fetchDifficulty response with
  | .error _ =>
    let failures := s.consecutiveFailures + 1
    { s with
      consecutiveFailures := failures
      shared := if failures = POOL_DOWN_FAILURE_THRESHOLD then
        { s.shared with endpointDown := true } else s.shared }
  | .ok sample =>
    let s := if s.shared.difficulty ≠ sample then s.setDifficulty sample else s
    { s with
      mgr := s.mgr.observeDifficulty cfg sample mono
      consecutiveFailures := 0
      shared := if s.consecutiveFailures > 0 then { s.shared with endpointDown := false }
        else s.shared }

/-- The difficulty hint callback of `run`; the other events touch no difficulty. -/
def fire (s : Miner) : Event → Miner
  | .difficultyHint d => if s.shared.difficulty ≠ d then s.setDifficulty d else s
  | _ => s

/-- One scheduling step with its events fired. -/
def runOnce (cfg : Config) (s : Miner) (env : StepEnv) : Miner :=
  let ctx := (s.mgr.runOnce cfg env).2
  ctx.events.foldl fire { s with mgr := ctx.mgr }

end Miner

inductive MinerOp
  | poll (response : TransportResult) (mono : Int)
  | step (env : StepEnv)

def Miner.perform (cfg : Config) (s : Miner) : MinerOp → Miner
  | .poll response mono => s.pollOnce cfg response mono
  | .step env => s.runOnce cfg env

def DifficultyInRange (d : UInt32) : Prop := 1 ≤ d.toNat ∧ d.toNat ≤ 100000000

instance : DecidablePred DifficultyInRange := fun _ => inferInstanceAs (Decidable (_ ∧ _))

/-! ## What the server's answers carry -/

/-- The difficulty `handle_difficulty_body` reads out of a body. -/
def bodyDifficulty (body : String) : Option UInt32 :=
  (extractJsonField body "difficulty").bind fun field => parseDifficultyHint s!"m={field}"

/-- A healthy answer of the health route with a difficulty. -/
def healthDifficulty (env : StepEnv) : Option UInt32 :=
  env.health.bind fun h => if probeResponseHealthy h then bodyDifficulty h.body else none

/-- The difficulty a probe learns: the health route's, else that of `/difficulty`. -/
def probeDifficultySeen (env : StepEnv) : Option UInt32 :=
  (healthDifficulty env).or
    (if probeResponseHealthy env.difficulty then bodyDifficulty env.difficulty.body else none)

/-- The difficulty a step takes from the answers it receives: a due probe's bodies while
the breaker is open, else the classification of the `/verify` answer. -/
def carried (cfg : Config) (m : SubmissionManager) (env : StepEnv) : Option UInt32 :=
  if m.fatal then none
  else if m.breaker.state = .opened then
    if m.breaker.probeDue (env.mono .probeDue) then probeDifficultySeen env else none
  else
    match (submitPost cfg env (updateMargin cfg env ⟨m, [], []⟩)).1 with
    | .ok f => f.c.serverDifficultyHint
    | .error _ => none

namespace SubmissionManager

variable {cfg : Config} {env : StepEnv} {m : SubmissionManager} {ctx : StepCtx}

/-- A body hints at exactly the difficulty it carries. -/
theorem handleDifficultyBody_eq (body : String) :
    handleDifficultyBody cfg env body ctx =
      match bodyDifficulty body with
      | none => (false, ctx)
      | some d => (true, noteDifficulty cfg env d ctx) := rfl

theorem handleDifficultyBody_hints (body : String) (d : UInt32) :
    (handleDifficultyBody cfg env body ctx).1 = (bodyDifficulty body).isSome ∧
      (.difficultyHint d ∈ (handleDifficultyBody cfg env body ctx).2.events ↔
        .difficultyHint d ∈ ctx.events ∨ bodyDifficulty body = some d) := by
  rw [handleDifficultyBody_eq]
  cases bodyDifficulty body with
  | none => simp
  | some e => simp [(noteDifficulty_spec e ctx).2.2, eq_comm]

theorem probeHealth_hints (d : UInt32) :
    ((probeHealth cfg env ctx).1 && (probeHealth cfg env ctx).2.1) =
        (healthDifficulty env).isSome ∧
      (.difficultyHint d ∈ (probeHealth cfg env ctx).2.2.events ↔
        .difficultyHint d ∈ ctx.events ∨ healthDifficulty env = some d) := by
  unfold probeHealth healthDifficulty
  cases env.health with
  | none => simp
  | some h =>
    by_cases hh : probeResponseHealthy h = true
    · obtain ⟨h1, h2⟩ := @handleDifficultyBody_hints cfg env
        (ctx.withMgr (ctx.mgr.trackServerDate h (env.wall .healthDate))) h.body d
      simp only [hh, if_true, Option.bind_some, h1, Bool.true_and, true_and]
      exact h2
    · simp [hh, StepCtx.withMgr]

theorem probeDifficulty_hints (healthy seen : Bool) (d : UInt32) :
    .difficultyHint d ∈ (probeDifficulty cfg env healthy seen ctx).2.events ↔
      .difficultyHint d ∈ ctx.events ∨ ((healthy && seen) = false ∧
        probeResponseHealthy env.difficulty = true ∧
        bodyDifficulty env.difficulty.body = some d) := by
  unfold probeDifficulty
  by_cases hs : (healthy && seen) = true
  · have : ¬ (!healthy || !seen) = true := by revert hs; cases healthy <;> cases seen <;> simp
    rw [if_neg this]
    simp [hs]
  · have hs' : (healthy && seen) = false := by simpa using hs
    have : (!healthy || !seen) = true := by revert hs; cases healthy <;> cases seen <;> simp
    rw [if_pos this]
    by_cases hh : probeResponseHealthy env.difficulty = true
    · have h2 := (@handleDifficultyBody_hints cfg env
        (ctx.withMgr (ctx.mgr.trackServerDate env.difficulty (env.wall .probeDate)))
        env.difficulty.body d).2
      simp only [hh, if_true, hs', true_and]
      exact h2
    · simp [hh, StepCtx.withMgr]

/-- A probe hints at exactly the difficulty it learns. -/
theorem probeStep_hints (d : UInt32) :
    .difficultyHint d ∈ (probeStep cfg env ctx).2.events ↔ .difficultyHint d ∈ ctx.events ∨
      (ctx.mgr.breaker.probeDue (env.mono .probeDue) = true ∧ probeDifficultySeen env = some d) := by
  unfold probeStep
  by_cases hdue : ctx.mgr.breaker.probeDue (env.mono .probeDue) = true
  · rw [if_neg (by simp [hdue])]
    obtain ⟨h1, h2⟩ := @probeHealth_hints cfg env ctx d
    rcases hp : probeHealth cfg env ctx with ⟨healthy, seen, c1⟩
    rw [hp] at h1 h2
    have h3 := @probeDifficulty_hints cfg env c1 healthy seen d
    dsimp only at h1 h2
    rw [h1, h2] at h3
    simp only [StepCtx.push, StepCtx.withBreaker, StepCtx.withMgr, List.mem_append,
      List.mem_singleton, reduceCtorEq, or_false, h3, hdue, true_and]
    unfold probeDifficultySeen
    cases healthDifficulty env with
    | none => by_cases hh : probeResponseHealthy env.difficulty = true <;> simp [hh]
    | some e => simp
  · simp [hdue]

/-- A step hints at exactly the difficulty it takes from its answers. -/
theorem runOnce_hints (d : UInt32) :
    .difficultyHint d ∈ (m.runOnce cfg env).2.events ↔ carried cfg m env = some d := by
  obtain ⟨hsame, -, hmargin⟩ := @updateMargin_spec cfg env ⟨m, [], []⟩
  have hnone : .difficultyHint d ∉ (updateMargin cfg env ⟨m, [], []⟩).events := by
    rw [hmargin]; simp
  have hconfirm : ∀ {c c' : StepCtx} {rc : StepResult}, confirmStep cfg env c = (.ok rc, c') →
      (.difficultyHint d ∈ c'.events ↔ .difficultyHint d ∈ c.events) := by
    intro c c' rc h
    rcases @confirmStep_cases cfg env c with h' | ⟨c2, h', -, hr⟩
    · rw [h'] at h; cases h; exact Iff.rfl
    · rw [h'] at h; cases h; exact hr.hints d
  unfold carried
  rcases @runOnce_cases cfg env m with ⟨hf, hr⟩ | ⟨hf, hs⟩
  · simp [hf, hr]
  rw [if_neg (by simp [hf])]
  generalize (m.runOnce cfg env).2 = ctx' at hs ⊢
  generalize (m.runOnce cfg env).1 = r at hs
  cases hs with
  | probe r c hopen hp =>
    have h := @probeStep_hints cfg env (updateMargin cfg env ⟨m, [], []⟩) d
    rw [hp, hsame.breaker] at h
    rw [h, if_pos hopen]
    split_ifs with hdue <;> simp [hnone, hdue]
  | early r r' rc c1 c2 hopen hp hc hr =>
    rw [hconfirm hc, if_neg hopen, hp, (posted_of_eq hp).events]
    simp [hnone]
  | submit f rc c1 c2 c3 hopen hp hrec hc =>
    rw [hconfirm hc, hrec.hints, if_neg hopen, hp]
    have hev : c1.events = (updateMargin cfg env ⟨m, [], []⟩).events := (posted_of_eq hp).events
    unfold submitHint
    cases hh : f.c.serverDifficultyHint with
    | none => simp [hh, hev, hnone]
    | some e => simp [hh, (noteDifficulty_spec e c1).2.2, hev, hnone, eq_comm]

end SubmissionManager

/-! ## The shared value over runs -/

namespace Miner

variable {cfg : Config} {s : Miner}

theorem fire_difficulty (e : Event) : (s.fire e).shared.difficulty =
    match e with | .difficultyHint d => d | _ => s.shared.difficulty := by
  cases e with
  | difficultyHint d =>
    unfold fire
    dsimp only
    split_ifs with h
    · rfl
    · exact not_not.1 h
  | outcome => rfl
  | networkState => rfl
  | margin => rfl

/-- Firing events that hint at one difficulty only. -/
theorem foldl_fire_difficulty (d : UInt32) (events : List Event) :
    ∀ s : Miner, (∀ e, .difficultyHint e ∈ events → e = d) →
      (events.foldl fire s).shared.difficulty =
        if .difficultyHint d ∈ events then d else s.shared.difficulty := by
  induction events with
  | nil => intro s _; simp
  | cons a events ih =>
    intro s hall
    rw [List.foldl_cons, ih _ fun e he => hall e (List.mem_cons_of_mem _ he), fire_difficulty]
    by_cases hmem : .difficultyHint d ∈ events
    · simp [hmem]
    · cases a with
      | difficultyHint e =>
        have he : e = d := hall e List.mem_cons_self
        simp [he]
      | outcome => simp [hmem]
      | networkState => simp [hmem]
      | margin => simp [hmem]

/-- A step leaves the difficulty its answers carried, or the one before. -/
theorem runOnce_difficulty (env : StepEnv) :
    (s.runOnce cfg env).shared.difficulty =
      (carried cfg s.mgr env).getD s.shared.difficulty := by
  unfold runOnce
  cases hc : carried cfg s.mgr env with
  | none =>
    have hno : ∀ e, .difficultyHint e ∉ (s.mgr.runOnce cfg env).2.events := fun e he => by
      rw [runOnce_hints, hc] at he; cases he
    rw [foldl_fire_difficulty 0 _ _ fun e he => absurd he (hno e), if_neg (hno 0)]
    rfl
  | some d =>
    have hone : ∀ e, .difficultyHint e ∈ (s.mgr.runOnce cfg env).2.events → e = d := by
      intro e he
      rw [runOnce_hints, hc] at he
      exact (Option.some.inj he).symm
    rw [foldl_fire_difficulty d _ _ hone, if_pos ((runOnce_hints d).2 hc)]
    rfl

theorem fetchDifficulty_inRange {response : TransportResult} {d : UInt32}
    (h : fetchDifficulty response = .ok d) : DifficultyInRange d := by
  unfold fetchDifficulty at h
  split_ifs at h with h1 h2
  cases hf : extractJsonField response.body "difficulty" with
  | none => simp [hf] at h
  | some field =>
    cases hv : stoi field with
    | none => simp [hf, hv] at h
    | some value =>
      simp only [hf, hv] at h
      split_ifs at h with hr
      simp only [Except.ok.injEq] at h
      subst h
      unfold DIFFICULTY_MIN DIFFICULTY_MAX at hr
      unfold DifficultyInRange
      rw [UInt32.toNat_ofNat_of_lt' (by simp [UInt32.size]; omega)]
      omega

/-- A poll writes a difficulty in range or none. -/
theorem pollOnce_difficulty (response : TransportResult) (mono : Int) :
    (s.pollOnce cfg response mono).shared.difficulty = s.shared.difficulty ∨
      DifficultyInRange (s.pollOnce cfg response mono).shared.difficulty := by
  unfold pollOnce
  cases hf : fetchDifficulty response with
  | error e =>
    left
    dsimp only
    split_ifs <;> rfl
  | ok sample =>
    have hd := fetchDifficulty_inRange hf
    dsimp only
    by_cases hs : s.shared.difficulty = sample
    · right
      rw [if_neg (not_not.2 hs)]
      split_ifs <;> exact (congrArg DifficultyInRange hs).mpr hd
    · right
      rw [if_pos hs]
      split_ifs <;> exact hd

end Miner

/-- A step whose answers carry no difficulty out of range; polls check their own. -/
def CarriesInRange (cfg : Config) (t : Trans Miner MinerOp) : Prop :=
  match t.ev with
  | .poll _ _ => True
  | .step env => ∀ d, carried cfg t.pre.mgr env = some d → DifficultyInRange d

def Miner.start (cfg : Config) (journal : Journal) (difficulty : UInt32) : Miner :=
  ⟨.new cfg journal, ⟨difficulty, false⟩, 0⟩

/-- Over every run of polls and steps from a difficulty in range, the mined difficulty
stays in range if and only if no answer a step receives carries one out of range. -/
theorem mined_difficulty_in_range_iff (cfg : Config) (journal : Journal) (initial : UInt32)
    (hinit : DifficultyInRange initial) (ops : List MinerOp) :
    let s := Miner.start cfg journal initial
    (∀ x ∈ visited s (trace (Miner.perform cfg) s ops), DifficultyInRange x.shared.difficulty) ↔
      ∀ t ∈ trace (Miner.perform cfg) s ops, CarriesInRange cfg t := by
  intro s
  refine (Run.trace (Miner.perform cfg) s ops).forall_iff
    (I := fun x => DifficultyInRange x.shared.difficulty) (fun _ h => h) ?_ ?_ hinit
  · rintro ⟨x, op, x'⟩ hstep hI hC
    dsimp only at hstep hI
    subst hstep
    cases op with
    | poll response mono =>
      rcases @Miner.pollOnce_difficulty cfg x response mono with h | h
      · exact (congrArg DifficultyInRange h).mpr hI
      · exact h
    | step env =>
      have hd := @Miner.runOnce_difficulty cfg x env
      cases hc : carried cfg x.mgr env with
      | none => rw [hc] at hd; exact (congrArg DifficultyInRange hd).mpr hI
      | some d => rw [hc] at hd; exact (congrArg DifficultyInRange hd).mpr (hC d hc)
  · rintro ⟨x, op, x'⟩ hstep - hC
    dsimp only at hstep
    subst hstep
    cases op with
    | poll response mono => exact absurd trivial hC
    | step env =>
      intro hr
      refine hC fun d hc => ?_
      have hd := @Miner.runOnce_difficulty cfg x env
      rw [hc] at hd
      exact (congrArg DifficultyInRange hd).mp hr

/-- One find of memory cost 100, mined at difficulty 100. -/
def Miner.sample : Miner :=
  .start .default (.ofCaptures [.sample "k" .xen11 100]) 100

/-- One step whose find is answered 401 with a hint. -/
def hintedAt (message : String) : List MinerOp :=
  [.step { StepEnv.silent 0 with submit := .ok 401 message }]

theorem mined_difficulty_in_range_iff_sample :
    (∀ x ∈ visited Miner.sample (trace (Miner.perform .default) Miner.sample (hintedAt "m=101")),
      DifficultyInRange x.shared.difficulty) ↔
    ∀ t ∈ trace (Miner.perform .default) Miner.sample (hintedAt "m=101"),
      CarriesInRange .default t :=
  mined_difficulty_in_range_iff .default _ 100 (by decide) _

/-- A 401 that hints at difficulty 0 puts 0 before the mining threads. -/
theorem hint_zero_is_mined :
    DifficultyInRange 100 ∧
    ¬ ∀ x ∈ visited Miner.sample (trace (Miner.perform .default) Miner.sample
        (hintedAt "Hash does not contain 'm=0'")), DifficultyInRange x.shared.difficulty := by
  decide

end TreeMiner
