import TreeMiner.Lib.CharBoundary
import TreeMiner.Submit.Verdict

/-! The outcome callback of the miner. It cuts a long detail at a fixed byte, which panics
inside a character; only an answer no rule recognises puts server text there. -/

namespace TreeMiner

open Lib SubmissionManager
open String (utf8Len)

def MAX_DETAIL : Nat := 64

inductive ConsoleLevel
  | info
  | ok
  | retry
  | park
  | error
deriving DecidableEq, Repr

inductive LastSubmissionState
  | none
  | accepted
  | unconfirmed
  | retry
  | parked
  | failed
deriving DecidableEq, Repr

def outcomeLabels (c : Classification) : String × String :=
  match c.nextStatus with
  | .acked => ("UPLINK CONFIRMED", "server record verified")
  | .acceptedUnconfirmed => ("UPLINK ACCEPTED", "confirmation pending")
  | .pending =>
    ("UPLINK RETRY", if "transport failure".toList.isPrefixOf c.reason.toList then
      "network unavailable; retry scheduled" else c.reason)
  | .parkedDifficulty | .parkedXuniWindow => ("UPLINK PARKED", c.reason)
  | .quarantined => ("UPLINK QUARANTINED", c.reason)
  | .dead | .permanentlyInvalid => ("UPLINK REJECTED", c.reason)
  | .submitting => ("UPLINK UPDATED", c.reason)

def consoleVerb : FindStatus → ConsoleLevel × String
  | .acked => (.ok, "confirmed")
  | .acceptedUnconfirmed => (.info, "accepted")
  | .pending => (.retry, "retrying")
  | .parkedDifficulty | .parkedXuniWindow => (.park, "parked")
  | .quarantined => (.error, "quarantined")
  | .dead | .permanentlyInvalid => (.error, "rejected")
  | .submitting => (.info, "updated")

def lastSubmissionFor : FindStatus → LastSubmissionState
  | .acked => .accepted
  | .acceptedUnconfirmed => .unconfirmed
  | .pending => .retry
  | .parkedDifficulty | .parkedXuniWindow => .parked
  | .quarantined | .dead | .permanentlyInvalid => .failed
  | .submitting => .none

/-- `String::truncate`, none where it panics. -/
def truncate (s : String) (newLen : Nat) : Option String :=
  if newLen ≤ s.utf8ByteSize then
    if isBoundary s.toList newLen then some (String.ofList (takeBytes newLen s.toList)) else none
  else some s

def cutDetail (detail : String) : Option String :=
  if detail.utf8ByteSize > MAX_DETAIL then (truncate detail (MAX_DETAIL - 3)).map (· ++ "...")
  else some detail

/-- What the callback shows of one outcome. -/
structure OutcomeReport where
  lastSubmission : LastSubmissionState
  queued : Option (Nat × Nat)
  message : String
  level : ConsoleLevel
  console : String
deriving DecidableEq

/-- The outcome callback; `counts` are the queued finds of either kind, if the journal could
be read. -/
def outcomeReport (counts : Option (Nat × Nat)) (record : FindRecord) (c : Classification)
    (httpStatus : Option Int) : Option OutcomeReport := do
  let (label, detail) := outcomeLabels c
  let detail ← cutDetail detail
  let http := httpStatus.elim "" fun status => s!" HTTP={status}"
  let consoleHttp := httpStatus.elim "" fun status => s!"  •  HTTP={status}"
  let (level, verb) := consoleVerb c.nextStatus
  some
    { lastSubmission := lastSubmissionFor c.nextStatus
      queued := counts
      message := s!"{label} [{record.payload.kind.asStr}] id={record.id}{http} - {detail}"
      level := level
      console := s!"#{record.id}  •  {record.payload.kind.asStr}  •  {verb}{consoleHttp}  •  {detail}" }

theorem outcomeReport_isSome (counts : Option (Nat × Nat)) (record : FindRecord)
    (c : Classification) (httpStatus : Option Int) :
    (outcomeReport counts record c httpStatus).isSome = (cutDetail (outcomeLabels c).2).isSome := by
  unfold outcomeReport
  rcases outcomeLabels c with ⟨label, detail⟩
  dsimp only
  cases cutDetail detail <;> rfl

theorem cutDetail_isSome_iff (detail : String) :
    (cutDetail detail).isSome = true ↔
      detail.utf8ByteSize ≤ 64 ∨ isBoundary detail.toList 61 = true := by
  unfold cutDetail truncate MAX_DETAIL
  split_ifs with h64 h61 hb
  · simp [hb]
  · simp [hb]
    omega
  · omega
  · simp
    omega

/-! ## Details that can be cut -/

def AllAscii (cs : List Char) : Prop := ∀ c ∈ cs, c.utf8Size = 1

theorem AllAscii.append {cs ds : List Char} (hc : AllAscii cs) (hd : AllAscii ds) :
    AllAscii (cs ++ ds) := fun c h => (List.mem_append.1 h).elim (hc c) (hd c)

theorem allAscii_of_all {cs : List Char} (h : cs.all (·.utf8Size = 1) = true) : AllAscii cs :=
  fun c hc => by simpa using List.all_eq_true.1 h c hc

theorem utf8ByteSize_eq (s : String) : s.utf8ByteSize = utf8Len s.toList := by
  rw [← String.utf8ByteSize_ofList, String.ofList_toList]

theorem cutDetail_of_ascii {detail : String} (h : AllAscii detail.toList) :
    (cutDetail detail).isSome = true := by
  rw [cutDetail_isSome_iff, utf8ByteSize_eq, utf8Len_of_ascii h]
  by_cases hlen : detail.toList.length ≤ 64
  · exact .inl hlen
  · exact .inr (isBoundary_of_ascii h (by omega))

/-- A fixed beginning of 61 bytes decides. -/
theorem cutDetail_of_prefix {detail : String} {pre rest : List Char}
    (h : detail.toList = pre ++ rest) (hlen : 61 ≤ utf8Len pre) (hb : isBoundary pre 61 = true) :
    (cutDetail detail).isSome = true := by
  rw [cutDetail_isSome_iff, h, isBoundary_append_left hlen]
  exact .inr hb

theorem utf8Size_of_isAsciiDigit {c : Char} (h : isAsciiDigit c = true) : c.utf8Size = 1 := by
  unfold isAsciiDigit at h
  rw [Bool.and_eq_true, decide_eq_true_eq, decide_eq_true_eq] at h
  rw [Char.utf8Size_eq_one_iff]
  exact UInt32.le_trans (show c.val ≤ '9'.val from h.2) (by decide)

theorem toString_nat_ascii (n : Nat) : AllAscii (toString n).toList := by
  intro c hc
  rw [Nat.toString_eq_repr, Nat.toList_repr] at hc
  exact utf8Size_of_isAsciiDigit (isAsciiDigit_of_mem_toDigits hc)

theorem toString_int_ascii (i : Int) : AllAscii (toString i).toList := by
  cases i with
  | ofNat n => exact toString_nat_ascii n
  | negSucc n =>
    have htext : (toString (Int.negSucc n)).toList = ['-'] ++ (toString (n + 1)).toList := by
      change ("-" ++ Nat.repr (n + 1)).toList = _
      rw [String.toList_append]
      rfl
    have hsign : AllAscii ['-'] := allAscii_of_all (by decide)
    rw [htext]
    exact hsign.append (toString_nat_ascii (n + 1))

theorem terminalMarker_mem {message marker : String} (h : terminalMarker message = some marker) :
    marker ∈ TERMINAL_MARKERS := List.mem_of_find?_eq_some h

theorem terminal_ascii {marker : String} (h : marker ∈ TERMINAL_MARKERS) :
    AllAscii marker.toList ∧ 18 ≤ marker.toList.length := by
  have hall : TERMINAL_MARKERS.all (fun m =>
      m.toList.all (·.utf8Size = 1) && decide (18 ≤ m.toList.length)) = true := by decide
  have h := List.all_eq_true.1 hall marker h
  rw [Bool.and_eq_true, decide_eq_true_eq] at h
  exact ⟨allAscii_of_all h.1, h.2⟩

/-! ## The details of an answer -/

/-- No rule of the classifier fits the answer. -/
structure Unrecognized (httpStatus : Int) (body : String) : Prop where
  up : ¬ SaysServerDown httpStatus body
  other : ¬ (httpStatus = 200 ∨ DuplicateKey httpStatus (messageOf body))
  unmarked : ¬ HasTerminalMarker (messageOf body)
  window : isXuniWindowRejection (messageOf body) = false
  hint : isDifficultyMismatch (messageOf body) = true ∨ httpStatus = 401 →
    parseDifficultyHint (messageOf body) = none

/-- The two reasons of an accepted answer. -/
def AcceptReason (reason : String) : Prop :=
  reason = "http 200; awaiting /get_block confirmation" ∨
    reason = "duplicate key (already exists); confirming via /get_block"

/-- The classifications of an answer by what their details hold. -/
inductive Detailed (httpStatus : Int) (body : String) : Classification → Prop
  | cuttable (c : Classification) (h : ¬ Unrecognized httpStatus body)
      (hn : c.needsLookupConfirmation = false)
      (hcut : (cutDetail (outcomeLabels c).2).isSome = true) : Detailed httpStatus body c
  | accepted (reason : String) (h : ¬ Unrecognized httpStatus body) (hr : AcceptReason reason) :
      Detailed httpStatus body ⟨.acceptedUnconfirmed, none, true, reason⟩
  | unrecognized (h : Unrecognized httpStatus body) :
      Detailed httpStatus body
        (quarantinedWith s!"unrecognized response (http {httpStatus}): {messageOf body}")

theorem cuttable_pending {reason : String} (h : AllAscii reason.toList) :
    (cutDetail (outcomeLabels (pendingWith reason)).2).isSome = true := by
  unfold outcomeLabels pendingWith
  dsimp only
  split_ifs
  · decide
  · exact cutDetail_of_ascii h

theorem ascii_append {a b : String} (ha : AllAscii a.toList) (hb : AllAscii b.toList) :
    AllAscii (a ++ b).toList := by
  rw [String.toList_append]
  exact ha.append hb

theorem ascii_text (a : String) (h : a.toList.all (·.utf8Size = 1) = true) : AllAscii a.toList :=
  allAscii_of_all h

theorem cutDetail_of_ascii_prefix {pre rest : String} (h : AllAscii pre.toList)
    (hlen : 61 ≤ pre.toList.length) : (cutDetail (pre ++ rest)).isSome = true := by
  rw [cutDetail_isSome_iff, String.toList_append,
    isBoundary_append_left (by rw [utf8Len_of_ascii h]; exact hlen)]
  exact .inr (isBoundary_of_ascii h hlen)

theorem cuttable_rejected {marker : String} (httpStatus : Int) (rest : String)
    (hm : marker ∈ TERMINAL_MARKERS) :
    (cutDetail ("server rejected permanently (http " ++ toString httpStatus ++ ", matched \"" ++
      marker ++ rest)).isSome = true := by
  obtain ⟨hascii, hlen⟩ := terminal_ascii hm
  refine cutDetail_of_ascii_prefix (ascii_append (ascii_append (ascii_append (ascii_text _
    (by decide)) (toString_int_ascii httpStatus)) (ascii_text _ (by decide)))
    hascii) ?_
  simp only [String.toList_append, List.length_append]
  have hfixed : "server rejected permanently (http ".toList.length = 34 ∧
      ", matched \"".toList.length = 11 := by decide
  omega

/-- The dash of the message about an impossible answer ends before byte 61. -/
theorem cuttable_impossible (rest : String) :
    (cutDetail ("IMPOSSIBLE: XUNI-window rejection for a XEN11 record — server " ++ rest)).isSome =
      true :=
  cutDetail_of_prefix (String.toList_append) (by decide) (by decide)

theorem classify_detailed (httpStatus : Int) (body : String) (kind : FindKind)
    (retryAfter : Option String) :
    Detailed httpStatus body (classify httpStatus body kind retryAfter) := by
  have hstatus := toString_int_ascii httpStatus
  unfold classify
  dsimp only
  rw [show (extractJsonMessage body).getD body = messageOf body from rfl]
  by_cases h0 : httpStatus ≤ 0
  · rw [if_pos h0]
    refine .cuttable _ (fun hu => hu.up (.inl h0)) rfl (cuttable_pending ?_)
    exact allAscii_of_all (by decide)
  rw [if_neg h0]
  by_cases hblank : isBlank body.toList = true
  · rw [if_pos hblank]
    refine .cuttable _ (fun hu => hu.up (.inr (.inl hblank))) rfl (cuttable_pending ?_)
    exact ascii_append (ascii_append (ascii_text _ (by decide)) hstatus)
      (ascii_text _ (by decide))
  rw [if_neg hblank]
  by_cases h200 : httpStatus = 200
  · rw [if_pos h200]
    exact .accepted _ (fun hu => hu.other (.inl h200)) (.inl rfl)
  rw [if_neg h200]
  by_cases h429 : httpStatus = 429
  · rw [if_pos h429]
    have hlimited : ¬ Unrecognized httpStatus body := fun hu => hu.up (.inr (.inr (.inl h429)))
    cases retryAfter.bind parseRetryAfterSeconds with
    | some secs =>
      refine .cuttable _ hlimited rfl (cuttable_pending ?_)
      exact ascii_append (ascii_text _ (by decide)) (toString_int_ascii secs)
    | none =>
      refine .cuttable _ hlimited rfl (cuttable_pending ?_)
      exact allAscii_of_all (by decide)
  rw [if_neg h429]
  by_cases hbad : httpStatus = 408 ∨ httpStatus = 425 ∨ httpStatus ≥ 500
  · rw [if_pos hbad]
    refine .cuttable _ (fun hu => hu.up (.inr (.inr (.inr hbad)))) rfl (cuttable_pending ?_)
    exact ascii_append (ascii_append (ascii_text _ (by decide)) hstatus)
      (ascii_text _ (by decide))
  rw [if_neg hbad]
  have hup : ¬ SaysServerDown httpStatus body := by
    unfold SaysServerDown
    tauto
  by_cases hdup : (httpStatus = 400 ∨ httpStatus = 409) ∧
      containsText (messageOf body) "already exists" = true
  · rw [if_pos hdup]
    exact .accepted _ (fun hu => hu.other (.inr hdup)) (.inr rfl)
  rw [if_neg hdup]
  have hother : ¬ (httpStatus = 200 ∨ DuplicateKey httpStatus (messageOf body)) :=
    not_or.2 ⟨h200, hdup⟩
  cases hmark : terminalMarker (messageOf body) with
  | some marker =>
    refine .cuttable _ (fun hu => ?_) rfl ?_
    · rw [(terminalMarker_eq_none_iff _).2 hu.unmarked] at hmark
      cases hmark
    · have hcut := cuttable_rejected httpStatus ("\"); " ++
        ("retrying cannot change this answer: " ++ messageOf body)) (terminalMarker_mem hmark)
      rw [← String.append_assoc] at hcut
      exact hcut
  | none =>
    have hno := (terminalMarker_eq_none_iff _).1 hmark
    dsimp only
    by_cases hx : isXuniWindowRejection (messageOf body) = true
    · rw [if_pos hx]
      have hwindow : ¬ Unrecognized httpStatus body := fun hu => by
        rw [hu.window] at hx
        cases hx
      by_cases hk : kind = .xuni
      · rw [if_pos hk]
        exact .cuttable _ hwindow rfl (by decide)
      · rw [if_neg hk]
        exact .cuttable _ hwindow rfl (cuttable_impossible _)
    · rw [if_neg hx]
      split
      · rename_i hint hh
        refine .cuttable _ (fun hu => ?_) rfl (cutDetail_of_ascii ?_)
        · split_ifs at hh with hd
          rw [hu.hint hd] at hh
          cases hh
        · exact ascii_append (ascii_append (ascii_text _ (by decide))
            (toString_nat_ascii hint.toNat)) (ascii_text _ (by decide))
      · rename_i hh
        refine .unrecognized ⟨hup, hother, hno, Bool.not_eq_true _ ▸ hx, fun hd => ?_⟩
        rw [if_pos hd] at hh
        exact hh

/-! ## Which answers cut a character -/

def statusDigits (httpStatus : Int) : Nat :=
  if httpStatus < 10 then 1 else if httpStatus < 100 then 2 else 3

theorem statusDigits_eq {httpStatus : Int} (h0 : 0 < httpStatus) (h : httpStatus < 500) :
    (toString httpStatus).toList.length = statusDigits httpStatus := by
  obtain ⟨n, rfl⟩ := Int.eq_ofNat_of_zero_le h0.le
  change (Nat.repr n).toList.length = _
  rw [Nat.toList_repr]
  have h1 := @Nat.length_toDigits_le_iff 10 n 1 (by decide) (by decide)
  have h2 := @Nat.length_toDigits_le_iff 10 n 2 (by decide) (by decide)
  have h3 := @Nat.length_toDigits_le_iff 10 n 3 (by decide) (by decide)
  have hpos := @Nat.length_toDigits_pos 10 n
  unfold statusDigits
  split_ifs <;> omega

/-- An answer of no known kind whose message is long enough to be cut, with a character
across the byte that byte 61 of the detail is. -/
def CutsCharacter (httpStatus : Int) (body : String) : Prop :=
  Unrecognized httpStatus body ∧ 33 - statusDigits httpStatus < (messageOf body).utf8ByteSize ∧
    ¬ ∃ pre, pre <+: (messageOf body).toList ∧ utf8Len pre = 30 - statusDigits httpStatus

theorem cutDetail_unrecognized {httpStatus : Int} {body : String}
    (h : Unrecognized httpStatus body) :
    (cutDetail s!"unrecognized response (http {httpStatus}): {messageOf body}").isSome = true ↔
      ¬ CutsCharacter httpStatus body := by
  have hup := h.up
  unfold SaysServerDown at hup
  have hdigits := statusDigits_eq (show 0 < httpStatus by omega) (by omega)
  have hstatus := toString_int_ascii httpStatus
  have hascii : AllAscii ("unrecognized response (http " ++ toString httpStatus ++ "): ").toList :=
    ascii_append (ascii_append (ascii_text _ (by decide)) hstatus)
      (ascii_text _ (by decide))
  have hpre : utf8Len ("unrecognized response (http " ++ toString httpStatus ++ "): ").toList =
      31 + statusDigits httpStatus := by
    rw [utf8Len_of_ascii hascii, String.toList_append, String.toList_append, List.length_append,
      List.length_append, hdigits]
    have hfixed : "unrecognized response (http ".toList.length = 28 ∧ "): ".toList.length = 3 := by
      decide
    omega
  have hle : statusDigits httpStatus ≤ 3 := by unfold statusDigits; split_ifs <;> decide
  change (cutDetail (("unrecognized response (http " ++ toString httpStatus ++ "): ") ++
    messageOf body)).isSome = true ↔ _
  rw [cutDetail_isSome_iff, String.toList_append, isBoundary_append_right (by omega), hpre,
    utf8ByteSize_eq, String.toList_append, String.utf8Len_append, hpre,
    show 61 - (31 + statusDigits httpStatus) = 30 - statusDigits httpStatus by omega,
    isBoundary_iff]
  unfold CutsCharacter
  rw [utf8ByteSize_eq]
  constructor
  · rintro (hshort | hb) ⟨-, hlong, hno⟩
    · omega
    · exact hno hb
  · intro hcut
    by_cases hlong : 33 - statusDigits httpStatus < utf8Len (messageOf body).toList
    · exact .inr (not_not.1 fun hno => hcut ⟨h, hlong, hno⟩)
    · exact .inl (by omega)

/-- What an outcome is about: an attempt with the lookup behind it, or a retried lookup. -/
inductive Answered
  | verify (res conf : TransportResult)
  | lookup (conf : TransportResult)

/-- The classification an answer leads to. -/
def outcomeOf (record : FindRecord) (backoff : String) : Answered → Classification
  | .verify res conf =>
    let c := classify (verifyStatus res) res.body record.payload.kind res.retryAfter
    if c.needsLookupConfirmation then (confirmInline record conf backoff c).1 else c
  | .lookup conf => (confirmRetry record conf backoff).1

def Answered.CutsCharacter : Answered → Prop
  | .verify res _ => TreeMiner.CutsCharacter (verifyStatus res) res.body
  | .lookup _ => False

/-- The details of what the server has are fixed. -/
theorem cuttable_accepted {c : Classification}
    (h : c.nextStatus = .acked ∨ c.nextStatus = .acceptedUnconfirmed) :
    (cutDetail (outcomeLabels c).2).isSome = true := by
  have hacked : (cutDetail "server record verified").isSome = true := by decide
  have haccepted : (cutDetail "confirmation pending").isSome = true := by decide
  unfold outcomeLabels
  rcases h with h | h
  · rw [h]
    exact hacked
  · rw [h]
    exact haccepted

theorem cuttable_absent {reason : String} (hr : AcceptReason reason) :
    (cutDetail (outcomeLabels ⟨.pending, none, false, reason ++
      "; /get_block says ABSENT — server 200 was not durable, resubmitting"⟩).2).isSome = true := by
  rcases hr with rfl | rfl <;> decide +kernel

theorem cuttable_confirmInline {reason : String} (hr : AcceptReason reason) (record : FindRecord)
    (conf : TransportResult) (backoff : String) :
    (cutDetail (outcomeLabels (confirmInline record conf backoff
      ⟨.acceptedUnconfirmed, none, true, reason⟩).1).2).isSome = true := by
  unfold confirmInline
  split_ifs
  · split
    · exact cuttable_accepted (.inl rfl)
    · exact cuttable_accepted (.inr rfl)
  · exact cuttable_absent hr
  · exact cuttable_accepted (.inr rfl)

theorem cuttable_confirmRetry (record : FindRecord) (conf : TransportResult) (backoff : String) :
    (cutDetail (outcomeLabels (confirmRetry record conf backoff).1).2).isSome = true := by
  unfold confirmRetry
  split_ifs
  · split
    · exact cuttable_accepted (.inl rfl)
    · exact cuttable_accepted (.inr rfl)
  · -- the dash of this reason ends before byte 61
    exact (by decide : (cutDetail (outcomeLabels ⟨.pending, none, false,
      "/get_block says ABSENT — server 200 was not durable, resubmitting"⟩).2).isSome = true)
  · exact cuttable_accepted (.inr rfl)

/-- The callback renders every outcome but those that cut a character. -/
theorem outcomeReport_isSome_iff (counts : Option (Nat × Nat)) (record : FindRecord)
    (backoff : String) (answered : Answered) (httpStatus : Option Int) :
    (outcomeReport counts record (outcomeOf record backoff answered) httpStatus).isSome = true ↔
      ¬ answered.CutsCharacter := by
  rw [outcomeReport_isSome]
  cases answered with
  | lookup conf => simp [outcomeOf, cuttable_confirmRetry, Answered.CutsCharacter]
  | verify res conf =>
    unfold outcomeOf Answered.CutsCharacter
    dsimp only
    have hdetail := classify_detailed (verifyStatus res) res.body record.payload.kind res.retryAfter
    generalize classify (verifyStatus res) res.body record.payload.kind res.retryAfter = c at hdetail
    cases hdetail with
    | cuttable c h hn hcut =>
      rw [hn, if_neg (by decide), hcut]
      exact ⟨fun _ hc => h hc.1, fun _ => rfl⟩
    | accepted reason h hr =>
      rw [if_pos rfl, cuttable_confirmInline hr]
      exact ⟨fun _ hc => h hc.1, fun _ => rfl⟩
    | unrecognized h =>
      rw [if_neg (by simp [quarantinedWith])]
      exact cutDetail_unrecognized h

/-- Sixteen two-byte letters under a 400: byte 61 of the detail is inside the fourteenth. -/
theorem outcomeReport_isSome_two_bytes :
    ¬ ∀ (counts : Option (Nat × Nat)) (record : FindRecord) (backoff : String)
      (answered : Answered) (httpStatus : Option Int),
      (outcomeReport counts record (outcomeOf record backoff answered) httpStatus).isSome = true := by
  intro h
  have hnone := h none (Finds.empty.newRecord (.sample "key" .xen11 8)) ""
    (.verify (.ok 400 (String.ofList (List.replicate 16 'é'))) (.failed "")) (some 400)
  revert hnone
  decide

/-! ## The outcomes of a step -/

/-- Every outcome among the events is that of an answer. -/
def OutcomesAnswered (events : List Event) : Prop :=
  ∀ record c httpStatus, .outcome record c httpStatus ∈ events →
    ∃ backoff answered, c = outcomeOf record backoff answered

variable {cfg : Config} {env : StepEnv} {ctx : StepCtx}

theorem OutcomesAnswered.push (h : OutcomesAnswered ctx.events) {e : Event}
    (he : ∀ record c httpStatus, e = .outcome record c httpStatus →
      ∃ backoff answered, c = outcomeOf record backoff answered) :
    OutcomesAnswered (ctx.push e).events := fun record c httpStatus hmem =>
  (List.mem_append.1 hmem).elim (h record c httpStatus) fun hlast =>
    he record c httpStatus (List.mem_singleton.1 hlast).symm

theorem OutcomesAnswered.updateMargin (h : OutcomesAnswered ctx.events) :
    OutcomesAnswered (updateMargin cfg env ctx).events := by
  unfold SubmissionManager.updateMargin
  dsimp only
  split_ifs
  · exact h
  · exact h
  · exact h
  · exact OutcomesAnswered.push h (by rintro _ _ _ ⟨⟩)

theorem OutcomesAnswered.noteDifficulty (h : OutcomesAnswered ctx.events) (d : UInt32) :
    OutcomesAnswered (noteDifficulty cfg env d ctx).events :=
  OutcomesAnswered.push h (by rintro _ _ _ ⟨⟩)

theorem OutcomesAnswered.handleDifficultyBody (h : OutcomesAnswered ctx.events) (body : String) :
    OutcomesAnswered (handleDifficultyBody cfg env body ctx).2.events := by
  unfold SubmissionManager.handleDifficultyBody
  split
  · exact h
  · exact h.noteDifficulty _

theorem OutcomesAnswered.probeStep (h : OutcomesAnswered ctx.events) :
    OutcomesAnswered (probeStep cfg env ctx).2.events := by
  have hhealth : OutcomesAnswered (probeHealth cfg env ctx).2.2.events := by
    unfold probeHealth
    split
    · exact h
    · dsimp only
      split_ifs
      · exact @OutcomesAnswered.handleDifficultyBody cfg env
          (ctx.withMgr (ctx.mgr.trackServerDate _ (env.wall .healthDate))) h _
      · exact h
  have hprobe : ∀ healthy seen ctx', OutcomesAnswered ctx'.events →
      OutcomesAnswered (probeDifficulty cfg env healthy seen ctx').2.events := by
    intro healthy seen ctx' h'
    unfold probeDifficulty
    dsimp only
    split_ifs
    · exact @OutcomesAnswered.handleDifficultyBody cfg env
        (ctx'.withMgr (ctx'.mgr.trackServerDate _ (env.wall .probeDate))) h' _
    · exact h'
    · exact h'
  unfold SubmissionManager.probeStep
  split_ifs
  · exact h
  · exact (hprobe _ _ _ hhealth).push (by rintro _ _ _ ⟨⟩)

theorem OutcomesAnswered.submitHint (h : OutcomesAnswered ctx.events) (f : Inflight) :
    OutcomesAnswered (submitHint cfg env f ctx).events := by
  unfold SubmissionManager.submitHint
  split
  · exact h
  · exact h.noteDifficulty _

/-- A recorded attempt is an outcome of its answer. -/
theorem settle_eq_outcomeOf {f : Inflight}
    (hc : f.c = classify (verifyStatus f.res) f.res.body f.record.payload.kind f.res.retryAfter) :
    (settle cfg env f).1 = outcomeOf f.record
      (backoffTimeIso cfg f.record.attemptCount none (env.wall .backoff))
      (.verify f.res env.confirm) := by
  unfold settle outcomeOf
  dsimp only
  rw [← hc]
  split_ifs <;> rfl

theorem OutcomesAnswered.submitRecord (h : OutcomesAnswered ctx.events) {f : Inflight}
    (hc : f.c = classify (verifyStatus f.res) f.res.body f.record.payload.kind f.res.retryAfter) :
    OutcomesAnswered (submitRecord cfg env f ctx).2.events := by
  have hsettle := @settle_eq_outcomeOf cfg env f hc
  obtain ⟨o, ho⟩ := @submitConfirm_eq env f ctx
  unfold SubmissionManager.submitRecord
  simp only [ho]
  split
  · exact h
  · refine OutcomesAnswered.push (OutcomesAnswered.push h (by rintro _ _ _ ⟨⟩)) ?_
    rintro record c httpStatus ⟨⟩
    exact ⟨_, _, hsettle⟩

theorem OutcomesAnswered.confirmOne (h : OutcomesAnswered ctx.events) (l : Lookup)
    (record : FindRecord) : OutcomesAnswered (confirmOne cfg l record ctx).2.events := by
  unfold SubmissionManager.confirmOne
  dsimp only
  split
  · exact h
  · refine OutcomesAnswered.push h ?_
    rintro _ c httpStatus ⟨⟩
    exact ⟨_, .lookup l.answer, rfl⟩

theorem OutcomesAnswered.confirmLoop (lookups : Nat → Lookup) (batch : List FindRecord) :
    ∀ (i : Nat) (ctx : StepCtx), OutcomesAnswered ctx.events →
      OutcomesAnswered (confirmLoop cfg lookups i batch ctx).2.events := by
  induction batch with
  | nil => exact fun _ _ h => h
  | cons record rest ih =>
    intro i ctx h
    have hone := @OutcomesAnswered.confirmOne cfg ctx h (lookups i) record
    unfold SubmissionManager.confirmLoop
    generalize SubmissionManager.confirmOne cfg (lookups i) record ctx = p at hone ⊢
    obtain ⟨e, ctx'⟩ := p
    cases e with
    | error e => exact hone
    | ok u =>
      dsimp only
      split_ifs
      · exact ih (i + 1) ctx' hone
      · exact hone

theorem OutcomesAnswered.confirmStep (h : OutcomesAnswered ctx.events) :
    OutcomesAnswered (confirmStep cfg env ctx).2.events := by
  unfold SubmissionManager.confirmStep
  dsimp only
  have hloop := @OutcomesAnswered.confirmLoop cfg env.lookups (confirmBatch cfg env ctx.mgr) 0 ctx h
  split_ifs
  · exact h
  · exact h
  · generalize SubmissionManager.confirmLoop cfg env.lookups 0 (confirmBatch cfg env ctx.mgr) ctx = p
      at hloop ⊢
    obtain ⟨e, ctx'⟩ := p
    cases e <;> exact hloop

theorem OutcomesAnswered.submitStep (h : OutcomesAnswered ctx.events) :
    OutcomesAnswered (submitStep cfg env ctx).2.events := by
  have hevents := (@submitPost_posted cfg env ctx).events
  have hinflight := fun f => @inflight_of_submitPost cfg env ctx f
  unfold SubmissionManager.submitStep
  rw [← hevents] at h
  generalize submitPost cfg env ctx = p at h hinflight ⊢
  obtain ⟨posted, ctx'⟩ := p
  cases posted with
  | error r => exact h
  | ok f => exact (OutcomesAnswered.submitHint h f).submitRecord (hinflight f rfl).2

/-- Every outcome a scheduling step fires is that of an answer. -/
theorem outcomes_answered (cfg : Config) (m : SubmissionManager) (env : StepEnv) :
    OutcomesAnswered (m.runOnce cfg env).2.events := by
  have hnone : OutcomesAnswered (⟨m, [], []⟩ : StepCtx).events := by rintro _ _ _ ⟨⟩
  have hmargin := @OutcomesAnswered.updateMargin cfg env _ hnone
  have hstep : OutcomesAnswered (runStep cfg env ⟨m, [], []⟩).2.events := by
    unfold runStep
    dsimp only
    generalize SubmissionManager.updateMargin cfg env ⟨m, [], []⟩ = ctx at hmargin
    split_ifs
    · exact hmargin.probeStep
    · have hsubmit := @OutcomesAnswered.submitStep cfg env ctx hmargin
      generalize SubmissionManager.submitStep cfg env ctx = p at hsubmit ⊢
      obtain ⟨r, ctx1⟩ := p
      cases r with
      | error e => exact hsubmit
      | ok r =>
        have hconfirm := @OutcomesAnswered.confirmStep cfg env ctx1 hsubmit
        dsimp only
        generalize SubmissionManager.confirmStep cfg env ctx1 = p at hconfirm ⊢
        obtain ⟨rc, ctx2⟩ := p
        cases rc with
        | error e => exact hconfirm
        | ok rc =>
          dsimp only
          split_ifs <;> exact hconfirm
  unfold runOnce
  split_ifs
  · exact hnone
  · generalize runStep cfg env ⟨m, [], []⟩ = p at hstep ⊢
    obtain ⟨r, ctx⟩ := p
    cases r with
    | error e => exact hnone
    | ok r => exact hstep

end TreeMiner
