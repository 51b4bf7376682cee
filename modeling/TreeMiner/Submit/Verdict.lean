import TreeMiner.Submit.Parts

/-! When the verdict on an answer is final, and when it says that the server was down. The
classifier gives a verdict on the row, the drain thread one on the path; both read the
status and the body of one answer. -/

namespace TreeMiner

open SubmissionManager

/-- The text a verdict is read from. -/
def messageOf (body : String) : String := (extractJsonMessage body).getD body

def HasTerminalMarker (message : String) : Prop :=
  ∃ marker ∈ TERMINAL_MARKERS, containsText message marker = true

def DuplicateKey (httpStatus : Int) (message : String) : Prop :=
  (httpStatus = 400 ∨ httpStatus = 409) ∧ containsText message "already exists" = true

/-- A statement about the server, not about the payload. -/
def SaysServerDown (httpStatus : Int) (body : String) : Prop :=
  httpStatus ≤ 0 ∨ isBlank body.toList = true ∨ httpStatus = 429 ∨ httpStatus = 408 ∨
    httpStatus = 425 ∨ httpStatus ≥ 500

theorem terminalMarker_eq_none_iff (message : String) :
    terminalMarker message = none ↔ ¬ HasTerminalMarker message := by
  unfold terminalMarker HasTerminalMarker
  rw [List.find?_eq_none]
  simp

/-- The cascade of the classifier: what each status of a row says of its answer. -/
inductive Cascade (httpStatus : Int) (body : String) : FindStatus → Prop
  | down (h : SaysServerDown httpStatus body) : Cascade httpStatus body .pending
  | accepted (h : ¬ SaysServerDown httpStatus body)
      (ha : httpStatus = 200 ∨ DuplicateKey httpStatus (messageOf body)) :
      Cascade httpStatus body .acceptedUnconfirmed
  | invalid (h : ¬ SaysServerDown httpStatus body)
      (ha : ¬ (httpStatus = 200 ∨ DuplicateKey httpStatus (messageOf body)))
      (hm : HasTerminalMarker (messageOf body)) : Cascade httpStatus body .permanentlyInvalid
  | kept (status : FindStatus) (h : ¬ SaysServerDown httpStatus body)
      (ha : ¬ (httpStatus = 200 ∨ DuplicateKey httpStatus (messageOf body)))
      (hm : ¬ HasTerminalMarker (messageOf body))
      (hs : status = .parkedXuniWindow ∨ status = .parkedDifficulty ∨ status = .quarantined) :
      Cascade httpStatus body status

theorem classify_cascade (httpStatus : Int) (body : String) (kind : FindKind)
    (retryAfter : Option String) :
    Cascade httpStatus body (classify httpStatus body kind retryAfter).nextStatus := by
  unfold classify
  dsimp only
  rw [show (extractJsonMessage body).getD body = messageOf body from rfl]
  by_cases h0 : httpStatus ≤ 0
  · rw [if_pos h0]
    exact .down (.inl h0)
  rw [if_neg h0]
  by_cases hblank : isBlank body.toList = true
  · rw [if_pos hblank]
    exact .down (.inr (.inl hblank))
  rw [if_neg hblank]
  by_cases h200 : httpStatus = 200
  · rw [if_pos h200]
    refine .accepted ?_ (.inl h200)
    rintro (h | h | h | h | h | h)
    · exact h0 h
    · exact hblank h
    all_goals omega
  rw [if_neg h200]
  by_cases h429 : httpStatus = 429
  · rw [if_pos h429]
    cases retryAfter.bind parseRetryAfterSeconds <;> exact .down (.inr (.inr (.inl h429)))
  rw [if_neg h429]
  by_cases hbad : httpStatus = 408 ∨ httpStatus = 425 ∨ httpStatus ≥ 500
  · rw [if_pos hbad]
    exact .down (.inr (.inr (.inr hbad)))
  rw [if_neg hbad]
  have hup : ¬ SaysServerDown httpStatus body := by
    unfold SaysServerDown
    tauto
  by_cases hdup : (httpStatus = 400 ∨ httpStatus = 409) ∧
      containsText (messageOf body) "already exists" = true
  · rw [if_pos hdup]
    exact .accepted hup (.inr hdup)
  rw [if_neg hdup]
  have hother : ¬ (httpStatus = 200 ∨ DuplicateKey httpStatus (messageOf body)) :=
    not_or.2 ⟨h200, hdup⟩
  cases hmark : terminalMarker (messageOf body) with
  | some marker =>
    refine .invalid hup hother (not_not.1 fun hno => ?_)
    rw [(terminalMarker_eq_none_iff _).2 hno] at hmark
    cases hmark
  | none =>
    have hno := (terminalMarker_eq_none_iff _).1 hmark
    dsimp only
    by_cases hx : isXuniWindowRejection (messageOf body) = true
    · rw [if_pos hx]
      by_cases hk : kind = .xuni
      · rw [if_pos hk]
        exact .kept _ hup hother hno (.inl rfl)
      · rw [if_neg hk]
        exact .kept _ hup hother hno (.inr (.inr rfl))
    · rw [if_neg hx]
      split
      · exact .kept _ hup hother hno (.inr (.inl rfl))
      · exact .kept _ hup hother hno (.inr (.inr rfl))

theorem Cascade.pending_iff {httpStatus : Int} {body : String} {status : FindStatus}
    (h : Cascade httpStatus body status) : status = .pending ↔ SaysServerDown httpStatus body := by
  cases h with
  | down h => simp [h]
  | accepted h | invalid h => simp [h]
  | kept status h ha hm hs => rcases hs with rfl | rfl | rfl <;> simp [h]

theorem Cascade.accepted_iff {httpStatus : Int} {body : String} {status : FindStatus}
    (h : Cascade httpStatus body status) :
    status = .acceptedUnconfirmed ↔ ¬ SaysServerDown httpStatus body ∧
      (httpStatus = 200 ∨ DuplicateKey httpStatus (messageOf body)) := by
  cases h with
  | down h => simp [h]
  | accepted h ha => simp [h, ha]
  | invalid h ha => simp [ha]
  | kept status h ha hm hs => rcases hs with rfl | rfl | rfl <;> simp [ha]

theorem Cascade.invalid_iff {httpStatus : Int} {body : String} {status : FindStatus}
    (h : Cascade httpStatus body status) :
    status = .permanentlyInvalid ↔ ¬ SaysServerDown httpStatus body ∧
      ¬ (httpStatus = 200 ∨ DuplicateKey httpStatus (messageOf body)) ∧
      HasTerminalMarker (messageOf body) := by
  cases h with
  | down h => simp [h]
  | accepted h ha => simp [ha]
  | invalid h ha hm => simp [h, ha, hm]
  | kept status h ha hm hs => rcases hs with rfl | rfl | rfl <;> simp [hm]

/-! ## Final verdicts -/

/-- A final verdict rests on a 4xx about the payload; an answer about the server is none. -/
structure Conclusive (httpStatus : Int) (body : String) (status : FindStatus) : Prop where
  invalid : status = .permanentlyInvalid →
    (400 ≤ httpStatus ∧ httpStatus < 500) ∧ httpStatus ≠ 408 ∧ httpStatus ≠ 425 ∧
      httpStatus ≠ 429 ∧ isBlank body.toList = false ∧ HasTerminalMarker (messageOf body) ∧
      ¬ DuplicateKey httpStatus (messageOf body)
  pending : SaysServerDown httpStatus body → status = .pending

/-- A verdict is conclusive but for a terminal marker under a status below 400. -/
theorem classify_conclusive_iff (httpStatus : Int) (body : String) (kind : FindKind)
    (retryAfter : Option String) :
    Conclusive httpStatus body (classify httpStatus body kind retryAfter).nextStatus ↔
      ¬ (0 < httpStatus ∧ httpStatus < 400 ∧ httpStatus ≠ 200 ∧ isBlank body.toList = false ∧
        HasTerminalMarker (messageOf body)) := by
  have hcascade := classify_cascade httpStatus body kind retryAfter
  generalize (classify httpStatus body kind retryAfter).nextStatus = status at hcascade
  have hinv := hcascade.invalid_iff
  constructor
  · rintro ⟨hfinal, -⟩ ⟨hpos, hlt, h200, hblank, hmark⟩
    have hup : ¬ SaysServerDown httpStatus body := by
      unfold SaysServerDown
      rw [hblank]
      simp
      omega
    have hother : ¬ (httpStatus = 200 ∨ DuplicateKey httpStatus (messageOf body)) := by
      rintro (h | ⟨h, -⟩)
      · exact h200 h
      · omega
    have := (hfinal (hinv.2 ⟨hup, hother, hmark⟩)).1
    omega
  · intro hexcept
    refine ⟨fun hs => ?_, fun hdown => hcascade.pending_iff.2 hdown⟩
    obtain ⟨hup, hother, hmark⟩ := hinv.1 hs
    unfold SaysServerDown at hup
    have hblank : isBlank body.toList = false := by
      rw [← Bool.not_eq_true]
      tauto
    have h400 : ¬ httpStatus < 400 := fun hlt =>
      hexcept ⟨by omega, hlt, by tauto, hblank, hmark⟩
    refine ⟨by omega, by omega, by omega, by omega, hblank, hmark, by tauto⟩

/-- A 201 that names a key format destroys a find. -/
theorem classify_conclusive_created :
    ¬ ∀ (httpStatus : Int) (body : String) (kind : FindKind) (retryAfter : Option String),
      Conclusive httpStatus body (classify httpStatus body kind retryAfter).nextStatus := by
  intro h
  have hfinal := (h 201 "Invalid key format" .xen11 none).invalid (by decide)
  omega

/-! ## Two judgements of one answer -/

theorem isWhitespace_of_ascii {c : Char} (h : isAsciiWhitespace c = true) :
    isWhitespace c = true := by
  unfold isAsciiWhitespace at h
  simp only [Bool.or_eq_true, decide_eq_true_eq] at h
  rcases h with (((rfl | rfl) | rfl) | rfl) | rfl <;> decide

/-- The classifier's blank bodies are among the drain thread's. -/
theorem isTrimEmpty_of_isBlank {body : String} (h : isBlank body.toList = true) :
    isTrimEmpty body = true :=
  List.all_eq_true.2 fun c hc => isWhitespace_of_ascii (List.all_eq_true.1 h c hc)

theorem containsText_mem {haystack needle : String} {c : Char}
    (h : containsText haystack needle = true) (hc : c ∈ needle.toList) : c ∈ haystack.toList := by
  unfold containsText at h
  generalize needle.toList = ns at h hc
  generalize haystack.toList = hs at h
  induction hs with
  | nil =>
    rw [containsText.go, List.isEmpty_iff] at h
    rw [h] at hc
    cases hc
  | cons x hs ih =>
    rw [containsText.go, Bool.or_eq_true, List.isPrefixOf_iff_prefix] at h
    rcases h with h | h
    · exact h.subset hc
    · exact List.mem_cons_of_mem x (ih h)

/-- No field is found in a body of whitespace. -/
theorem extractJsonField_of_isTrimEmpty {body : String} (h : isTrimEmpty body = true)
    (key : String) : extractJsonField body key = none := by
  have hall := List.all_eq_true.1 h
  unfold extractJsonField
  cases hskip : skipWs body.toList with
  | nil => rfl
  | cons c rest =>
    have hmem : c ∈ body.toList :=
      (List.dropWhile_suffix _).subset (hskip ▸ List.mem_cons_self : c ∈ skipWs body.toList)
    have hc : c ≠ '{' := by
      rintro rfl
      exact absurd (hall _ hmem) (by decide)
    dsimp only
    rw [if_pos hc]

theorem not_duplicateKey_of_isTrimEmpty {body : String} (h : isTrimEmpty body = true)
    (httpStatus : Int) : ¬ DuplicateKey httpStatus (messageOf body) := by
  rintro ⟨-, hdup⟩
  have hmessage : messageOf body = body := by
    unfold messageOf extractJsonMessage
    rw [extractJsonField_of_isTrimEmpty h, extractJsonField_of_isTrimEmpty h]
    rfl
  rw [hmessage] at hdup
  have hmem : 'a' ∈ body.toList := containsText_mem hdup (by decide)
  exact absurd (List.all_eq_true.1 h _ hmem) (by decide)

/-- The status `submit_step` hands the classifier. -/
def verifyStatus (r : TransportResult) : Int := if r.transportOk then r.httpStatus else TRANSPORT_ERROR

/-- The attempt counts toward opening the breaker. -/
def CountsAsOutage (cfg : Config) (env : StepEnv) (f : Inflight) : Prop :=
  verifyOutcome f (settle cfg env f).1 = .transportFailure

/-- Breaker and classifier agree: an attempt counts exactly when its answer is pending, a rate
limit that says so in its body apart. -/
def Agrees (cfg : Config) (env : StepEnv) (f : Inflight) : Prop :=
  CountsAsOutage cfg env f ↔
    (classify (verifyStatus f.res) f.res.body f.record.payload.kind f.res.retryAfter).nextStatus =
        .pending ∧
      ¬ (verifyStatus f.res = 429 ∧ isBlank f.res.body.toList = false)

/-- Where the two part: an answer with a body and a status of no server, or one whose body is
blank to the drain thread alone. A 200 of that kind counts only when its row is absent. -/
def JudgedTwoWays (res conf : TransportResult) : Prop :=
  res.transportOk = true ∧
    (res.httpStatus ≤ 0 ∧ isTrimEmpty res.body = false ∨
      0 < res.httpStatus ∧ res.httpStatus < 500 ∧ res.httpStatus ≠ 408 ∧ res.httpStatus ≠ 425 ∧
        isTrimEmpty res.body = true ∧ isBlank res.body.toList = false ∧
        (res.httpStatus = 200 → conf.transportOk = true ∧ conf.httpStatus = 404))

instance (res conf : TransportResult) : Decidable (JudgedTwoWays res conf) :=
  inferInstanceAs (Decidable (_ ∧ _))

/-- What is accepted stays accepted, unless the lookup answers that the row is absent. -/
theorem settle_accepted_iff {cfg : Config} {env : StepEnv} {f : Inflight} {kind : FindKind}
    (h : Classified kind f.c) :
    ((settle cfg env f).1.nextStatus = .acked ∨ (settle cfg env f).1.nextStatus = .acceptedUnconfirmed) ↔
      f.c.nextStatus = .acceptedUnconfirmed ∧
        ¬ (env.confirm.transportOk = true ∧ env.confirm.httpStatus = 404) := by
  unfold settle
  rcases hf : f.c with ⟨status, hint, needs, reason⟩
  rw [hf] at h
  cases h with
  | accepted =>
    rw [if_pos rfl]
    unfold confirmInline
    dsimp only
    by_cases h404 : env.confirm.transportOk = true ∧ env.confirm.httpStatus = 404
    · have h200 : isHttp200 env.confirm = false := by simp [isHttp200, h404]
      simp [h200, h404]
    · split_ifs with h200 habsent
      · split <;> simp [h404]
      · simp only [Bool.and_eq_true, decide_eq_true_eq] at habsent
        exact absurd habsent h404
      · simp [h404]
  | _ => simp

theorem isTransportFailure_iff (r : TransportResult) :
    isTransportFailure r = true ↔ r.transportOk = false ∨ r.httpStatus ≥ 500 ∨ r.httpStatus = 408 ∨
      r.httpStatus = 425 ∨ isTrimEmpty r.body = true := by
  unfold isTransportFailure
  cases r.transportOk <;> simp [or_assoc]

theorem countsAsOutage_iff {cfg : Config} {env : StepEnv} {f : Inflight}
    (hc : f.c = classify (verifyStatus f.res) f.res.body f.record.payload.kind f.res.retryAfter) :
    CountsAsOutage cfg env f ↔
      ¬ (f.c.nextStatus = .acceptedUnconfirmed ∧
        ¬ (env.confirm.transportOk = true ∧ env.confirm.httpStatus = 404)) ∧
      isTransportFailure f.res = true := by
  have hkind : Classified f.record.payload.kind f.c := hc ▸ classify_spec _ _ _ _
  rw [← @settle_accepted_iff cfg env f _ hkind]
  unfold CountsAsOutage verifyOutcome
  split_ifs with ha hf
  · simp [ha]
  · simp [ha, hf]
  · simp [hf]

/-- The two judgements of an answer that came agree but for the ones judged two ways. -/
theorem agrees_iff_of_classify {cfg : Config} {env : StepEnv} {f : Inflight}
    (hc : f.c = classify (verifyStatus f.res) f.res.body f.record.payload.kind f.res.retryAfter) :
    Agrees cfg env f ↔ ¬ JudgedTwoWays f.res env.confirm := by
  have hcascade := classify_cascade (verifyStatus f.res) f.res.body f.record.payload.kind
    f.res.retryAfter
  have hpend := hcascade.pending_iff
  have hacc := hcascade.accepted_iff
  rw [← hc] at hpend hacc
  have htrim := @isTrimEmpty_of_isBlank f.res.body
  have hdup := fun h => @not_duplicateKey_of_isTrimEmpty f.res.body h (verifyStatus f.res)
  have h429 : DuplicateKey (verifyStatus f.res) (messageOf f.res.body) →
      verifyStatus f.res = 400 ∨ verifyStatus f.res = 409 := fun h => h.1
  unfold Agrees
  rw [countsAsOutage_iff hc, ← hc, hpend, hacc, isTransportFailure_iff]
  clear hpend hacc hcascade hc
  unfold JudgedTwoWays SaysServerDown
  unfold verifyStatus at *
  generalize DuplicateKey _ _ = dup at *
  generalize isBlank f.res.body.toList = blank at *
  generalize isTrimEmpty f.res.body = trimmed at *
  cases f.res.transportOk with
  | false => simp [TRANSPORT_ERROR]
  | true =>
    simp only [if_true] at *
    generalize f.res.httpStatus = st at *
    generalize (env.confirm.transportOk = true ∧ env.confirm.httpStatus = 404) = absent at *
    cases blank with
    | true => grind
    | false =>
      cases trimmed with
      | true => grind
      | false => grind

theorem inflight_of_submitPost {cfg : Config} {env : StepEnv} {ctx : StepCtx} {f : Inflight}
    (h : (submitPost cfg env ctx).1 = .ok f) :
    f.res = env.submit ∧
      f.c = classify (verifyStatus f.res) f.res.body f.record.payload.kind f.res.retryAfter := by
  have hposted := @submitPost_posted cfg env ctx
  generalize submitPost cfg env ctx = p at h hposted
  cases hposted with
  | sent _ _ _ g _ _ _ hres hc =>
    cases h
    exact ⟨hres, hc⟩
  | _ => cases h

/-- In every submit step, breaker and classifier agree on its answer exactly when the answer
is not judged two ways. -/
theorem submitStep_agrees_iff {cfg : Config} {env : StepEnv} {ctx : StepCtx} {f : Inflight}
    (h : (submitPost cfg env ctx).1 = .ok f) :
    Agrees cfg env f ↔ ¬ JudgedTwoWays env.submit env.confirm := by
  obtain ⟨hres, hc⟩ := inflight_of_submitPost h
  rw [← hres]
  exact agrees_iff_of_classify hc

/-- A step of a fresh manager with one find, answered by `answer`. -/
def answeredEnv (answer : TransportResult) : StepEnv := { StepEnv.silent 1000 with submit := answer }

def postedFind : StepCtx := ⟨.new .default (.ofCaptures [.sample "key" .xen11 8]), [], []⟩

theorem exists_of_isSome {ε α : Type} {x : Except ε α} (h : x.toOption.isSome = true) :
    ∃ a, x = .ok a := by
  cases x with
  | error e => cases h
  | ok a => exact ⟨a, rfl⟩

theorem submitStep_agrees_iff_rejected :
    ∃ f, (submitPost .default (answeredEnv (.ok 401 "Hash verification failed")) postedFind).1 = .ok f ∧
      Agrees .default (answeredEnv (.ok 401 "Hash verification failed")) f := by
  obtain ⟨f, hf⟩ := exists_of_isSome (show
    (submitPost .default (answeredEnv (.ok 401 "Hash verification failed")) postedFind).1.toOption.isSome =
      true by decide)
  exact ⟨f, hf, (submitStep_agrees_iff hf).2 (by decide)⟩

/-- A 401 whose body is one no-break space is quarantined and counts as an outage. -/
theorem submitStep_agrees_no_break_space :
    ¬ ∀ (cfg : Config) (env : StepEnv) (ctx : StepCtx) (f : Inflight),
      (submitPost cfg env ctx).1 = .ok f → Agrees cfg env f := by
  intro h
  obtain ⟨f, hf⟩ := exists_of_isSome (show
    (submitPost .default (answeredEnv (.ok 401 "\u00a0")) postedFind).1.toOption.isSome = true by
      decide)
  obtain ⟨hres, hc⟩ := inflight_of_submitPost hf
  refine (agrees_iff_of_classify hc).1 (h _ _ _ _ hf) ?_
  rw [hres]
  decide

end TreeMiner
