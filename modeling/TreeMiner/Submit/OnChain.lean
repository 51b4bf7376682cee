import TreeMiner.Server.Chain
import TreeMiner.Submit.Lifecycle
import TreeMiner.Submit.Verdict

/-! The miner against the chain simulator, over a network that loses requests and answers. A find
is submitted until the chain answers for it, so it may be submitted often; it is on the chain at
most once, and what the journal holds as accepted is on it. -/

namespace TreeMiner

open Lib SubmissionManager Server

/-! ## The answers of the chain -/

theorem containsText_false {haystack needle : String} {c : Char} (hc : c ∈ needle.toList)
    (h : c ∉ haystack.toList) : containsText haystack needle = false := by
  rw [Bool.eq_false_iff]
  exact fun hin => h (containsText_mem hin hc)

/-- The body that refuses a key the chain has. -/
def knownKeyBody : String :=
  "\x7b\"status\":\"error\",\"message\":\"Key already exists\"\x7d"

theorem toAsciiLowercase_digit {c : Char} (h : isAsciiDigit c = true) : toAsciiLowercase c = c := by
  unfold isAsciiDigit at h
  rw [Bool.and_eq_true, decide_eq_true_eq, decide_eq_true_eq, Char.le_def, Char.le_def] at h
  unfold toAsciiLowercase
  rw [if_neg]
  rw [Bool.and_eq_true, decide_eq_true_eq, Char.le_def]
  rintro ⟨hlow, -⟩
  exact absurd (UInt32.le_trans hlow h.2) (by decide)

theorem mem_tooShort {n : Nat} {c : Char}
    (h : c ∈ s!"Key too short: {n} chars (need >= {KEY_HEX_LENGTH})".toList) :
    isAsciiDigit c = true ∨ c ∈ "Key too short: ".toList ∨ c ∈ " chars (need >= ".toList ∨
      c = ')' := by
  cases hdigit : isAsciiDigit c with
  | true => exact Or.inl rfl
  | false =>
    have hno := fun n => not_mem_repr_of_not_digit hdigit n
    simp only [String.toList_append, List.mem_append, toString, hno, or_false] at h
    rcases h with (h | h) | h
    · exact Or.inr (Or.inl h)
    · exact Or.inr (Or.inr (Or.inl h))
    · exact Or.inr (Or.inr (Or.inr (List.mem_singleton.1 h)))

/-- No text about the length of a key is taken for another refusal. -/
theorem errorStatus_tooShort (n : Nat) :
    ChainSimulator.errorStatus s!"Key too short: {n} chars (need >= {KEY_HEX_LENGTH})" = 500 := by
  have hexists : containsText s!"Key too short: {n} chars (need >= {KEY_HEX_LENGTH})"
      "already exists" = false := by
    refine containsText_false (c := 'x') (by decide) fun hx => ?_
    exact absurd (mem_tooShort hx) (by decide)
  have hwindow : ∀ needle, 'w' ∈ needle.toList → containsText
      (String.ofList (lower s!"Key too short: {n} chars (need >= {KEY_HEX_LENGTH})")) needle =
        false := by
    intro needle hneedle
    refine containsText_false hneedle fun hw => ?_
    rw [String.toList_ofList, lower, List.mem_map] at hw
    obtain ⟨d, hd, hlower⟩ := hw
    rcases mem_tooShort hd with hdigit | hd | hd | rfl
    · rw [toAsciiLowercase_digit hdigit] at hlower
      rw [hlower] at hdigit
      exact absurd hdigit (by decide)
    · have hall : "Key too short: ".toList.all fun d => toAsciiLowercase d ≠ 'w' := by decide
      exact of_decide_eq_true (List.all_eq_true.1 hall d hd) hlower
    · have hall : " chars (need >= ".toList.all fun d => toAsciiLowercase d ≠ 'w' := by decide
      exact of_decide_eq_true (List.all_eq_true.1 hall d hd) hlower
    · exact absurd hlower (by decide)
  unfold ChainSimulator.errorStatus
  dsimp only
  rw [hexists, hwindow _ (by decide), hwindow _ (by decide)]
  rfl

theorem validateKey_error {py : PyText} {key text : String}
    (h : validateKey py key = .error text) : ChainSimulator.errorStatus text = 500 := by
  unfold validateKey at h
  split_ifs at h
  · cases h
    decide
  · cases h
    exact errorStatus_tooShort key.length
  · cases h
    decide

/-- The statuses of `/verify`: 200 and 409 put the key on the chain, and the rest is 500. -/
inductive Answers (c : ChainSimulator) (key : String) : Int → String → Prop
  | accepted (body : String) (on : key ∈ c.knownKeys) (full : isBlank body.toList = false) :
      Answers c key 200 body
  | known (on : key ∈ c.knownKeys) : Answers c key 409 knownKeyBody
  | refused (body : String) : Answers c key 500 body

theorem verifyBlock_answers (py : PyText) (c : ChainSimulator) (req : VerifyRequest)
    (clock : ChainClock) :
    Answers (c.verifyBlock py req clock).1 req.key (c.verifyBlock py req clock).2.1
      (c.verifyBlock py req clock).2.2 := by
  unfold ChainSimulator.verifyBlock ChainSimulator.submitBlock
  cases hkey : validateKey py req.key with
  | error text =>
    dsimp only
    rw [validateKey_error hkey]
    exact .refused _
  | ok u =>
    dsimp only
    by_cases hknown : req.key ∈ c.knownKeys
    · rw [if_pos hknown]
      exact .known hknown
    · rw [if_neg hknown]
      cases hclass : c.classifyBlock py req.hashToVerify clock.minute with
      | none => exact .refused _
      | some blockType =>
        dsimp only
        refine .accepted _ (Finset.mem_insert_self _ _) ?_
        simp [isBlank, isAsciiWhitespace]

/-- What an answer of the chain makes of a find. -/
theorem classify_answers {c : ChainSimulator} {key body : String} {status : Int}
    (h : Answers c key status body) (kind : FindKind) (retryAfter : Option String) :
    (classify status body kind retryAfter).nextStatus = .pending ∨
      (classify status body kind retryAfter).nextStatus = .acceptedUnconfirmed ∧
        key ∈ c.knownKeys := by
  have hcascade := classify_cascade status body kind retryAfter
  cases h with
  | accepted body on full =>
    refine Or.inr ⟨hcascade.accepted_iff.2 ⟨?_, Or.inl rfl⟩, on⟩
    unfold SaysServerDown
    simp [full]
  | known on =>
    have hexists : containsText (messageOf knownKeyBody) "already exists" = true := by
      decide +kernel
    refine Or.inr ⟨hcascade.accepted_iff.2 ⟨?_, Or.inr ⟨Or.inr rfl, hexists⟩⟩, on⟩
    unfold SaysServerDown
    simp [show isBlank knownKeyBody.toList = false by decide +kernel]
  | refused body =>
    refine Or.inl (hcascade.pending_iff.2 ?_)
    unfold SaysServerDown
    simp

/-! ## The network -/

/-- The payload of `HttpTransport::submit`, as the chain reads it: the attempts are read back from
their decimals; `format2` is the text of a rate with two digits. -/
def verifyRequest (worker : String) (format2 : F64 → String) (p : FoundPayload) :
    VerifyRequest where
  hashToVerify := p.hashToVerify
  key := p.key
  account := p.account
  attempts := p.attempts.toNat
  hashesPerSecond := format2 p.hashesPerSecond
  worker := if worker = "" then p.worker else worker

structure Network where
  miner : Machine
  chain : ChainSimulator

/-- What becomes of a submission: the request is lost, or the chain takes it up and its answer is
lost, comes whole, or comes with a body that cannot be read. -/
inductive Delivery (py : PyText) (c : ChainSimulator) (req : VerifyRequest) (clock : ChainClock)
    (r : TransportResult) : ChainSimulator → Prop
  | unsent (failed : r.transportOk = false) : Delivery py c req clock r c
  | unanswered (failed : r.transportOk = false) :
      Delivery py c req clock r (c.verifyBlock py req clock).1
  | answered (ok : r.transportOk = true) (status : r.httpStatus = (c.verifyBlock py req clock).2.1)
      (body : r.body = (c.verifyBlock py req clock).2.2 ∨ r.body = "") :
      Delivery py c req clock r (c.verifyBlock py req clock).1

/-- The simulator has no `/get_block`: a lookup fails, or it is answered by 404. -/
def NotRouted (r : TransportResult) : Prop := r.transportOk = true → r.httpStatus = 404

def LooksUp : Turn → Prop
  | .drain env => NotRouted env.confirm ∧ ∀ i, NotRouted (env.lookups i).answer
  | _ => True

/-- The turn makes a `POST /verify`. -/
def Sends (m m' : Machine) (f : Inflight) : Prop := m.phase = .idle ∧ m'.phase = .posted f

inductive NetEvent
  | turn (t : Turn)
  /-- a submission of another client -/
  | other (req : VerifyRequest) (clock : ChainClock)

inductive NetStep (cfg : Config) (py : PyText) (worker : String) (format2 : F64 → String)
    (n : Network) : NetEvent → Network → Prop
  | quiet (t : Turn) (looks : LooksUp t) (silent : ∀ f, ¬ Sends n.miner (n.miner.turn cfg t) f) :
      NetStep cfg py worker format2 n (.turn t) ⟨n.miner.turn cfg t, n.chain⟩
  | post (t : Turn) (f : Inflight) (clock : ChainClock) (chain : ChainSimulator)
      (looks : LooksUp t) (sends : Sends n.miner (n.miner.turn cfg t) f)
      (delivery : Delivery py n.chain (verifyRequest worker format2 f.record.payload) clock f.res
        chain) :
      NetStep cfg py worker format2 n (.turn t) ⟨n.miner.turn cfg t, chain⟩
  | other (req : VerifyRequest) (clock : ChainClock) :
      NetStep cfg py worker format2 n (.other req clock)
        ⟨n.miner, n.chain.submitted py (req, clock)⟩

/-! ## What the miner believes -/

/-- A row of the journal is still to be submitted, on the chain, or was never fit to be sent. -/
inductive Row (known : Finset String) (r : FindRecord) : Prop
  | pending (status : r.status = .pending)
  | accepted (status : r.status = .acceptedUnconfirmed) (on : r.payload.key ∈ known)
  | refused (status : r.status = .permanentlyInvalid)
      (unfit : (Finds.initialStatus r.payload).1 = .permanentlyInvalid)

/-- The verdict of an answered submission: to be retried, or on the chain. -/
def Judged (known : Finset String) (f : Inflight) : Prop :=
  f.c.nextStatus = .pending ∨
    f.c.nextStatus = .acceptedUnconfirmed ∧ f.record.payload.key ∈ known

def PhaseJudged (known : Finset String) : Phase → Prop
  | .posted f | .hinted f _ => Judged known f
  | _ => True

structure Believes (n : Network) : Prop where
  journaled : Journaled n.miner
  rows : ∀ r ∈ n.miner.finds.rows, Row n.chain.knownKeys r
  phase : PhaseJudged n.chain.knownKeys n.miner.phase

theorem Row.mono {known known' : Finset String} {r : FindRecord} (h : Row known r)
    (hsub : known ⊆ known') : Row known' r := by
  cases h with
  | pending status => exact .pending status
  | accepted status on => exact .accepted status (hsub on)
  | refused status unfit => exact .refused status unfit

theorem PhaseJudged.mono {known known' : Finset String} {p : Phase} (h : PhaseJudged known p)
    (hsub : known ⊆ known') : PhaseJudged known' p := by
  cases p with
  | posted f => exact h.imp_right fun ⟨hs, hk⟩ => ⟨hs, hsub hk⟩
  | hinted f polled => exact h.imp_right fun ⟨hs, hk⟩ => ⟨hs, hsub hk⟩
  | idle => trivial
  | drained => trivial
  | confirming i batch => trivial

/-- The verdict on a delivered submission. -/
theorem judged_of_delivery {py : PyText} {c c' : ChainSimulator} {req : VerifyRequest}
    {clock : ChainClock} {f : Inflight} (hd : Delivery py c req clock f.res c')
    (hkey : req.key = f.record.payload.key)
    (hc : f.c = classify (verifyStatus f.res) f.res.body f.record.payload.kind f.res.retryAfter) :
    Judged c'.knownKeys f := by
  have hlost : f.res.transportOk = false → f.c.nextStatus = .pending := by
    intro hfailed
    rw [hc, (classify_cascade _ _ _ _).pending_iff, verifyStatus, hfailed]
    exact Or.inl le_rfl
  cases hd with
  | unsent failed => exact Or.inl (hlost failed)
  | unanswered failed => exact Or.inl (hlost failed)
  | answered ok status body =>
    have hstatus : verifyStatus f.res = (c.verifyBlock py req clock).2.1 := by
      rw [verifyStatus, ok, if_pos rfl, status]
    rcases body with hbody | hbody
    · have h := classify_answers (verifyBlock_answers py c req clock) f.record.payload.kind
        f.res.retryAfter
      rw [← hbody, ← hstatus, ← hc, hkey] at h
      exact h
    · left
      rw [hc, (classify_cascade _ _ _ _).pending_iff, hbody]
      exact Or.inr (Or.inl rfl)

/-! ## The rows behind a turn -/

theorem not_http200 {r : TransportResult} (h : NotRouted r) : isHttp200 r = false := by
  unfold isHttp200
  cases hok : r.transportOk with
  | false => rfl
  | true => simp [h hok]

namespace Row

variable {known : Finset String} {r r' : FindRecord}

theorem unparked (h : Row known r) (hu : Finds.Unparked r r') : Row known r' := by
  rcases hu with rfl | ⟨hparked, -⟩
  · exact h
  · cases h <;> simp_all

theorem windowed (h : Row known r) (maxWindows : Int) :
    Row known (Finds.windowed maxWindows r) := by
  have hno : r.status ≠ .parkedXuniWindow := by cases h <;> simp_all
  have hkept : Finds.exhausted maxWindows r = r := if_neg fun hp => hno hp.1
  have hsame : Finds.unparkedXuni r = r := if_neg hno
  unfold Finds.windowed
  rw [hkept, hsame]
  exact h

theorem recovered (h : Row known r) : Row known (Finds.recovered r) := by
  have hno : r.status ≠ .submitting := by cases h <;> simp_all
  unfold Finds.recovered
  rw [if_neg hno]
  exact h

/-- A row that an attempt moves on by a verdict about its find. -/
theorem attempted {c : Classification} (http : Option Int) (body : String) (next : Option String)
    (now : String) (hc : c.nextStatus = .pending ∨
      c.nextStatus = .acceptedUnconfirmed ∧ r.payload.key ∈ known) :
    Row known (Finds.attempted c http body next now r) := by
  rcases hc with hs | ⟨hs, hk⟩
  · exact .pending hs
  · exact .accepted hs hk

end Row

/-- An attempt on a row of the journal. -/
theorem rows_attempt {known : Finset String} {t t' : Finds} {rec : FindRecord} {c : Classification}
    {http : Option Int} {body : String} {next : Option String} {now : String}
    (hrows : t'.rows = t.rows.map (Finds.attemptAt rec.id c http body next now))
    (hrec : rec ∈ t.rows) (hc : c.nextStatus = .pending ∨
      c.nextStatus = .acceptedUnconfirmed ∧ rec.payload.key ∈ known)
    (h : ∀ r ∈ t.rows, Row known r) : ∀ r ∈ t'.rows, Row known r := by
  rw [hrows]
  intro r' hr'
  obtain ⟨r, hr, rfl⟩ := List.mem_map.1 hr'
  unfold Finds.attemptAt
  split_ifs with hid
  · rw [Finds.eq_of_id hr hrec hid]
    exact Row.attempted http body next now hc
  · exact h r hr

/-- What the record of an attempt says, where lookups are not routed. -/
theorem settled_judged {known : Finset String} {cfg : Config} {env : StepEnv} {f : Inflight}
    (hconfirm : NotRouted env.confirm) (h : Judged known f) :
    (settle cfg env f).1.nextStatus = .pending ∨
      (settle cfg env f).1.nextStatus = .acceptedUnconfirmed ∧ f.record.payload.key ∈ known := by
  have hsettled := @settle_settled cfg env f
  generalize (settle cfg env f).1 = c at hsettled
  cases hsettled with
  | asked hn => exact h
  | acked c hn h200 hbody hs =>
    rw [not_http200 hconfirm] at h200
    cases h200
  | absent c hn hs => exact Or.inl hs
  | unproven c hn hs =>
    rw [hs]
    exact h

theorem rows_map {known : Finset String} {t t' : Finds} {g : FindRecord → FindRecord}
    (hrows : t'.rows = t.rows.map g) (hg : ∀ r ∈ t.rows, Row known r → Row known (g r))
    (h : ∀ r ∈ t.rows, Row known r) : ∀ r ∈ t'.rows, Row known r := by
  rw [hrows]
  intro r' hr'
  obtain ⟨r, hr, rfl⟩ := List.mem_map.1 hr'
  exact hg r hr (h r hr)

theorem rows_part {known : Finset String} {cfg : Config} {env : StepEnv} {s s' : Machine}
    (hheld : s.phase.Held s.finds) (looks : LooksUp (.drain env))
    (hphase : PhaseJudged known s.phase) (hp : Part cfg env s s')
    (h : ∀ r ∈ s.finds.rows, Row known r) : ∀ r ∈ s'.finds.rows, Row known r := by
  cases hp with
  | quiet hj hd hp hn =>
    rw [hj]
    exact h
  | probe c c' hc hp hj hd hidle =>
    obtain ⟨g, hg, hu⟩ := hp.unparks
    rw [hc.journal] at hg
    rw [hj]
    exact rows_map hg (fun r _ hr => hr.unparked (hu r)) h
  | post hj hd hposted =>
    rcases hj with hj | hj
    · rw [hj]
      exact h
    · rw [hj]
      exact rows_map (Finds.unparkXuniForWindow_rows _) (fun r _ hr => hr.windowed _) h
  | hint f hposted hhinted hobs =>
    rcases hobs with ⟨-, hctx⟩ | ⟨d, -, hobs⟩
    · unfold Machine.finds
      rw [hctx]
      exact h
    · obtain ⟨g, hg, hu⟩ := hobs.unparks
      exact rows_map hg (fun r _ hr => hr.unparked (hu r)) h
  | record f polled hhinted hdrained hrec =>
    rw [hhinted] at hheld hphase
    obtain ⟨http, body, next, now, hrows⟩ := hrec.rows
    exact rows_attempt hrows hheld.1 (settled_judged looks.1 hphase) h
  | retry i rec rest hconfirming hnext hret =>
    rw [hconfirming] at hheld
    obtain ⟨hmem, hs⟩ := hheld.1 rec List.mem_cons_self
    obtain ⟨c, http, body, next, now, hrows, hc⟩ := hret.rows
    refine rows_attempt hrows hmem ?_ h
    rcases hc with ⟨-, h200, -⟩ | hc | hc
    · rw [not_http200 (looks.2 i)] at h200
      cases h200
    · refine Or.inr ⟨hc, ?_⟩
      cases h rec hmem with
      | pending status => rw [hs] at status; cases status
      | accepted status on => exact on
      | refused status unfit => rw [hs] at status; cases status
    · exact Or.inl hc

theorem rows_append {known : Finset String} {t : Finds} (payload : FoundPayload)
    (h : ∀ r ∈ t.rows, Row known r) : ∀ r ∈ (t.append payload).2.rows, Row known r := by
  rcases t.append_spec payload with ⟨r, -, -, heq⟩ | ⟨-, -, hrows⟩
  · rw [heq]
    exact h
  · rw [hrows]
    intro r hr
    rcases List.mem_append.1 hr with hr | hr
    · exact h r hr
    · rw [List.mem_singleton.1 hr]
      have hstatus : (Finds.initialStatus payload).1 = .pending ∨
          (Finds.initialStatus payload).1 = .permanentlyInvalid := by
        unfold Finds.initialStatus
        split_ifs <;> simp
      rcases hstatus with hs | hs
      · exact .pending hs
      · exact .refused hs hs

theorem rows_turn {known : Finset String} {cfg : Config} {m : Machine} (t : Turn)
    (hm : Journaled m) (looks : LooksUp t) (hphase : PhaseJudged known m.phase)
    (h : ∀ r ∈ m.finds.rows, Row known r) : ∀ r ∈ (m.turn cfg t).finds.rows, Row known r := by
  cases t with
  | append payload => exact rows_append payload h
  | observe d mono =>
    obtain ⟨g, hg, hu⟩ := (@observeDifficulty_spec cfg m.mgr d mono).unparks
    exact rows_map hg (fun r _ hr => hr.unparked (hu r)) h
  | drain env => exact rows_part hm.held looks hphase (Machine.drain_part hm.held) h
  | restart =>
    exact rows_map rfl (fun r _ hr => hr.recovered) h

/-! ## The phase behind a turn -/

/-- A turn that makes a submission judges it by its answer. -/
theorem classified_of_sends {cfg : Config} {m : Machine} {t : Turn} {f : Inflight}
    (hsends : Sends m (m.turn cfg t) f) :
    f.c = classify (verifyStatus f.res) f.res.body f.record.payload.kind f.res.retryAfter := by
  obtain ⟨hidle, hposted⟩ := hsends
  cases t with
  | append payload =>
    rw [show (m.turn cfg (.append payload)).phase = m.phase from rfl, hidle] at hposted
    cases hposted
  | observe d mono =>
    unfold Machine.turn Machine.observed at hposted
    rw [hidle] at hposted
    cases hposted
  | restart => cases hposted
  | drain env =>
    unfold Machine.turn Machine.drain Machine.begin at hposted
    rw [hidle] at hposted
    dsimp only at hposted
    split_ifs at hposted
    cases hpost : submitPost cfg env (updateMargin cfg env ⟨m.mgr, [], []⟩) with
    | mk result ctx =>
      rw [hpost] at hposted
      cases result with
      | error r => cases hposted
      | ok g =>
        cases hposted
        exact (inflight_of_submitPost (congrArg Prod.fst hpost)).2

/-- A step begins with a submission or without anything in flight. -/
theorem begin_phase (cfg : Config) (env : StepEnv) (mgr : SubmissionManager) :
    (∃ f, (Machine.begin cfg env mgr).phase = .posted f) ∨
      ¬ (Machine.begin cfg env mgr).phase.InFlight := by
  unfold Machine.begin
  dsimp only
  split_ifs
  · exact Or.inr id
  · exact Or.inr id
  · cases submitPost cfg env (updateMargin cfg env ⟨mgr, [], []⟩) with
    | mk result ctx =>
      cases result with
      | error r => exact Or.inr id
      | ok f => exact Or.inl ⟨f, rfl⟩

theorem PhaseJudged.of_not_inFlight {known : Finset String} {p : Phase} (h : ¬ p.InFlight) :
    PhaseJudged known p := by
  cases p with
  | posted f => exact absurd trivial h
  | hinted f polled => exact absurd trivial h
  | idle => trivial
  | drained => trivial
  | confirming i batch => trivial

/-- A turn that makes no submission leaves one in flight as it was judged. -/
theorem phase_turn {known : Finset String} {cfg : Config} {m : Machine} (t : Turn)
    (hphase : PhaseJudged known m.phase) (silent : ∀ f, ¬ Sends m (m.turn cfg t) f) :
    PhaseJudged known (m.turn cfg t).phase := by
  cases t with
  | append payload => exact hphase
  | observe d mono =>
    unfold Machine.turn Machine.observed
    dsimp only
    cases hp : m.phase <;> rw [hp] at hphase <;> exact hphase
  | restart => trivial
  | drain env =>
    unfold Machine.turn Machine.drain at silent ⊢
    cases hp : m.phase with
    | idle =>
      rw [hp] at silent
      rcases begin_phase cfg env m.mgr with ⟨f, hposted⟩ | hnone
      · exact absurd ⟨hp, hposted⟩ (silent f)
      · exact .of_not_inFlight hnone
    | posted f =>
      rw [hp] at hphase
      exact hphase
    | hinted f polled =>
      dsimp only
      cases submitRecord cfg env f m.ctx with
      | mk result ctx => cases result <;> trivial
    | drained =>
      dsimp only
      split_ifs <;> trivial
    | confirming i batch =>
      cases batch with
      | nil => trivial
      | cons rec rest =>
        dsimp only
        cases confirmOne cfg (env.lookups i) rec m.ctx with
        | mk result ctx =>
          cases result with
          | ok u =>
            dsimp only
            split_ifs <;> trivial
          | error e => trivial

/-! ## Runs -/

theorem knownKeys_submitted (py : PyText) (c : ChainSimulator) (s : VerifyRequest × ChainClock) :
    c.knownKeys ⊆ (c.submitted py s).knownKeys := by
  unfold ChainSimulator.submitted
  rcases @ChainSimulator.submitBlock_cases py c s.1 s.2 with ⟨text, hres, -⟩ | ⟨blockType, -, -, -, hres⟩
  · rw [hres]
  · rw [hres]
    exact Finset.subset_insert _ _

theorem verifyBlock_chain (py : PyText) (c : ChainSimulator) (req : VerifyRequest)
    (clock : ChainClock) : (c.verifyBlock py req clock).1 = c.submitted py (req, clock) := by
  unfold ChainSimulator.verifyBlock ChainSimulator.submitted
  dsimp only
  cases c.submitBlock py req clock with
  | mk c' result => cases result <;> rfl

/-- A delivery leaves the chain as it was, or with the submission. -/
theorem Delivery.chain {py : PyText} {c c' : ChainSimulator} {req : VerifyRequest}
    {clock : ChainClock} {r : TransportResult} (h : Delivery py c req clock r c') :
    c' = c ∨ c' = c.submitted py (req, clock) := by
  cases h with
  | unsent failed => exact Or.inl rfl
  | unanswered failed => exact Or.inr (verifyBlock_chain py c req clock)
  | answered ok status body => exact Or.inr (verifyBlock_chain py c req clock)

theorem Delivery.knownKeys {py : PyText} {c c' : ChainSimulator} {req : VerifyRequest}
    {clock : ChainClock} {r : TransportResult} (h : Delivery py c req clock r c') :
    c.knownKeys ⊆ c'.knownKeys := by
  rcases h.chain with heq | heq
  · rw [heq]
  · rw [heq]
    exact knownKeys_submitted py c (req, clock)

section

variable {cfg : Config} {py : PyText} {worker : String} {format2 : F64 → String} {n n' : Network}
  {e : NetEvent}

theorem Believes.step (h : Believes n) (hs : NetStep cfg py worker format2 n e n') :
    Believes n' := by
  cases hs with
  | quiet t looks silent =>
    exact ⟨Machine.turn_journaled t h.journaled, rows_turn t h.journaled looks h.phase h.rows,
      phase_turn t h.phase silent⟩
  | post t f clock chain looks sends delivery =>
    have hsub := delivery.knownKeys
    refine ⟨Machine.turn_journaled t h.journaled, ?_, ?_⟩
    · intro r hr
      exact (rows_turn t h.journaled looks h.phase h.rows r hr).mono hsub
    · dsimp only
      rw [sends.2]
      exact judged_of_delivery delivery rfl (classified_of_sends sends)
  | other req clock =>
    have hsub := knownKeys_submitted py n.chain (req, clock)
    exact ⟨h.journaled, fun r hr => (h.rows r hr).mono hsub, h.phase.mono hsub⟩

theorem ledger_step {base : Int} (h : n.chain.Ledger py base)
    (hs : NetStep cfg py worker format2 n e n') : n'.chain.Ledger py base := by
  cases hs with
  | quiet t looks silent => exact h
  | post t f clock chain looks sends delivery =>
    rcases delivery.chain with heq | heq
    · rw [heq]
      exact h
    · rw [heq]
      exact h.submitted _
  | other req clock => exact h.submitted _

/-- The blocks under a key come from the miner's find of this key. -/
def Own (key : String) (n : Network) : Prop :=
  ∀ b ∈ n.chain.blocks, b.key = key → ∃ r ∈ n.miner.finds.rows, r.payload.key = key ∧
    b.account = r.payload.account ∧ b.hashToVerify = r.payload.hashToVerify

/-- Every find stays in the journal as it was found. -/
theorem LifeStep.payload {t t' : Finds} (h : LifeStep t t') {r : FindRecord} (hr : r ∈ t.rows) :
    ∃ r' ∈ t'.rows, r'.payload = r.payload := by
  obtain ⟨kept, new, hrows, hkept, -⟩ := h
  obtain ⟨i, hi, rfl⟩ := List.getElem_of_mem hr
  have hlen := hkept.length_eq
  have hlives := hkept.get hi (by omega)
  rw [List.get_eq_getElem, List.get_eq_getElem] at hlives
  refine ⟨_, ?_, hlives.payload⟩
  rw [hrows]
  exact List.mem_append_left _ (List.getElem_mem _)

theorem Own.turn {key : String} (h : Own key n) (hm : Journaled n.miner) (t : Turn) :
    Own key ⟨n.miner.turn cfg t, n.chain⟩ := by
  intro b hb hkey
  obtain ⟨r, hr, hrkey, haccount, hhash⟩ := h b hb hkey
  obtain ⟨r', hr', hpayload⟩ := (Machine.turn_lifeStep t hm).payload hr
  refine ⟨r', hr', ?_⟩
  rw [hpayload]
  exact ⟨hrkey, haccount, hhash⟩

/-- A submission adds blocks of its own key only, with its account and hash. -/
theorem Own.submitted {key : String} {base : Int} {m : Machine} {c : ChainSimulator}
    (h : Own key ⟨m, c⟩) (hledger : c.Ledger py base) (req : VerifyRequest) (clock : ChainClock)
    (hreq : req.key = key → ∃ r ∈ m.finds.rows, r.payload.key = key ∧
      req.account = r.payload.account ∧ req.hashToVerify = r.payload.hashToVerify) :
    Own key ⟨m, c.submitted py (req, clock)⟩ := by
  have hbrings := hledger.brings (t := ⟨c, (req, clock), c.submitted py (req, clock)⟩) rfl
  rcases hbrings with ⟨blockType, b, -, -, -, hblocks, hkey, haccount, hhash, -⟩ | hsame
  · dsimp only at hblocks hkey haccount hhash
    intro b' hb' hkey'
    dsimp only at hb'
    rw [hblocks] at hb'
    rcases List.mem_append.1 hb' with hb' | hb'
    · exact h b' hb' hkey'
    · obtain rfl := List.mem_singleton.1 hb'
      rw [haccount, hhash]
      exact hreq (hkey.symm.trans hkey')
  · dsimp only at hsame
    rw [hsame]
    exact h

theorem Own.step {key : String} {base : Int} (h : Own key n) (hb : Believes n)
    (hledger : n.chain.Ledger py base) (hs : NetStep cfg py worker format2 n e n')
    (hother : ∀ req clock, e = .other req clock → req.key ≠ key) : Own key n' := by
  cases hs with
  | quiet t looks silent => exact h.turn hb.journaled t
  | post t f clock chain looks sends delivery =>
    have hturn : Own key ⟨n.miner.turn cfg t, n.chain⟩ := h.turn hb.journaled t
    rcases delivery.chain with heq | heq
    · rw [heq]
      exact hturn
    · rw [heq]
      refine hturn.submitted hledger _ clock fun hkey => ?_
      have hheld := (@Machine.turn_journaled cfg n.miner t hb.journaled).held
      rw [sends.2] at hheld
      exact ⟨f.record, hheld.1, hkey, rfl, rfl⟩
  | other req clock =>
    exact h.submitted hledger req clock fun hkey => absurd hkey (hother req clock rfl)

end

/-- What holds of a network at every moment: the miner's beliefs, and the books of the chain. -/
def Sound (py : PyText) (base : Int) (n : Network) : Prop :=
  Believes n ∧ n.chain.Ledger py base

theorem sound_start (cfg : Config) (py : PyText) (base : Int) (interval : { n : Nat // 0 < n })
    (xuniAlwaysValid : Bool) (marker : String) :
    Sound py base ⟨.start cfg .empty, .new base interval xuniAlwaysValid marker⟩ :=
  ⟨⟨⟨fun _ hr => absurd hr List.not_mem_nil, trivial⟩, fun _ hr => absurd hr List.not_mem_nil,
    trivial⟩, ChainSimulator.ledger_new base interval xuniAlwaysValid marker⟩

/-- A key has one block. -/
theorem block_unique {py : PyText} {base : Int} {c : ChainSimulator} (h : c.Ledger py base)
    {b b' : SubmittedBlock} (hb : b ∈ c.blocks) (hb' : b' ∈ c.blocks) (hkey : b'.key = b.key) :
    b' = b :=
  List.inj_on_of_nodup_map h.keys hb' hb hkey

/-- A find is still to be submitted, or it is accepted and on the chain in exactly one block, which
is the miner's own where no other client has submitted the key. -/
def OnceOnChain (ts : List (Trans Network NetEvent)) (n : Network) (r : FindRecord) : Prop :=
  r.status = .pending ∨
    r.status = .acceptedUnconfirmed ∧
      ∃ b ∈ n.chain.blocks, b.key = r.payload.key ∧
        (∀ b' ∈ n.chain.blocks, b'.key = r.payload.key → b' = b) ∧
        ((∀ t ∈ ts, ∀ req clock, t.ev = .other req clock → req.key ≠ r.payload.key) →
          b.account = r.payload.account ∧ b.hashToVerify = r.payload.hashToVerify)

/-- Every moment of a run of the miner's threads and of other clients against the chain, whatever
requests and answers are lost: a find that was fit to be sent is pending, or it is accepted and on
the chain, once. -/
theorem submitted_once {cfg : Config} {py : PyText} {worker : String} {format2 : F64 → String}
    {base : Int} {interval : { n : Nat // 0 < n }} {xuniAlwaysValid : Bool} {marker : String}
    {ts : List (Trans Network NetEvent)} {u : Network}
    (hrun : Run (NetStep cfg py worker format2)
      ⟨.start cfg .empty, .new base interval xuniAlwaysValid marker⟩ ts u) :
    ∀ n ∈ visited ⟨.start cfg .empty, .new base interval xuniAlwaysValid marker⟩ ts,
      ∀ r ∈ n.miner.finds.rows, (Finds.initialStatus r.payload).1 = .pending →
        OnceOnChain ts n r := by
  intro n hn r hr hfit
  have hsound := hrun.inv (I := Sound py base)
    (fun n e n' hs h => ⟨h.1.step hs, ledger_step h.2 hs⟩)
    (sound_start cfg py base interval xuniAlwaysValid marker)
  obtain ⟨hbelieves, hledger⟩ := hsound.1 n hn
  cases hbelieves.rows r hr with
  | pending status => exact Or.inl status
  | refused status unfit =>
    rw [hfit] at unfit
    cases unfit
  | accepted status on =>
    obtain ⟨b, hb, hkey⟩ := (hledger.known _).1 on
    refine Or.inr ⟨status, b, hb, hkey, ?_, ?_⟩
    · intro b' hb' hkey'
      exact block_unique hledger hb hb' (hkey'.trans hkey.symm)
    · intro hother
      have hown := (hrun.inv_of
        (I := fun n => Sound py base n ∧ Own r.payload.key n)
        (C := fun t => ∀ req clock, t.ev = .other req clock → req.key ≠ r.payload.key)
        (fun t hs h hC => ⟨⟨h.1.1.step hs, ledger_step h.1.2 hs⟩,
          h.2.step h.1.1 h.1.2 hs hC⟩)
        ⟨sound_start cfg py base interval xuniAlwaysValid marker,
          fun b hb => absurd hb List.not_mem_nil⟩ hother).1 n hn
      obtain ⟨r', hr', hkey', haccount, hhash⟩ := hown.2 b hb hkey
      have hnodup : (n.miner.finds.rows.map fun r => r.payload.key).Nodup :=
        List.pairwise_map.2 n.miner.finds.keys
      obtain rfl : r' = r := List.inj_on_of_nodup_map hnodup hr' hr hkey'
      exact ⟨haccount, hhash⟩

/-! A find whose first submission reaches the chain, with the answer lost. -/

def Server.PyText.ascii : PyText :=
  ⟨fun s => String.ofList (Server.lower s), Char.isUpper, Char.isDigit,
    fun key => key.toList.all isAsciiHexdigit⟩

/-- A submission is in flight, without an answer. -/
def Phase.unanswered : Phase → Bool
  | .posted f => !f.res.transportOk
  | _ => false

theorem Phase.unanswered_iff {p : Phase} :
    p.unanswered = true ↔ ∃ f, p = .posted f ∧ f.res.transportOk = false := by
  cases p <;> simp [Phase.unanswered]

def captured : Machine :=
  (Machine.start .default .empty).turn .default
    (.append (.sample (String.ofList (List.replicate 64 'a')) .xen11 8))

theorem submitted_once_lost_answer :
    ∃ ts u f, Run (NetStep .default .ascii "" fun _ => "0.00")
        ⟨.start .default .empty, .new 1727 ⟨50, by decide⟩ true ""⟩ ts u ∧
      u.miner.phase = .posted f ∧
      ∀ n ∈ visited ⟨.start .default .empty, .new 1727 ⟨50, by decide⟩ true ""⟩ ts,
        ∀ r ∈ n.miner.finds.rows, (Finds.initialStatus r.payload).1 = .pending →
          OnceOnChain ts n r := by
  obtain ⟨f, hposted, hlost⟩ := Phase.unanswered_iff.1
    (by decide : (captured.turn .default (.drain (.silent 1000))).phase.unanswered = true)
  have hrun : Run (NetStep .default .ascii "" fun _ => "0.00")
      ⟨.start .default .empty, .new 1727 ⟨50, by decide⟩ true ""⟩ _ _ :=
    .cons (.quiet (.append (.sample (String.ofList (List.replicate 64 'a')) .xen11 8)) trivial
      fun g hg => by cases hg.2) <|
    .cons (.post (.drain (.silent 1000)) f ⟨0, 0⟩ _
      ⟨fun h => absurd h Bool.false_ne_true, fun _ h => absurd h Bool.false_ne_true⟩
      ⟨rfl, hposted⟩ (.unanswered hlost)) .nil
  exact ⟨_, _, f, hrun, hposted, submitted_once hrun⟩

end TreeMiner
