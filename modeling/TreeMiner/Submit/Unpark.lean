import TreeMiner.Submit.Interleave

/-! No lost un-park. The observed difficulty and the rows parked for difficulty are
written under different locks; the poller can come between the observation of a 401 hint
and the write that parks its row. -/

namespace TreeMiner

open Lib SubmissionManager

/-- Every row parked for difficulty is below the last difficulty observed. -/
def ParkedBelow (m : SubmissionManager) : Prop :=
  ∀ d, m.lastDifficulty = some d → ∀ r ∈ m.journal.finds.rows,
    r.status = .parkedDifficulty → r.payload.memoryCost < d

/-- No un-park is lost: with no submission in flight, no parked row would be accepted. -/
def NoLostUnpark (s : Machine) : Prop := ¬ s.phase.InFlight → ParkedBelow s.mgr

/-- The 401 about to park a row hinted at a difficulty above the row's own. -/
def HintsAbove (t : Trans Machine Turn) : Prop :=
  ∀ f polled d, t.pre.phase = .hinted f polled → f.c.serverDifficultyHint = some d →
    f.record.payload.memoryCost < d

instance : DecidablePred HintsAbove := fun t =>
  match hphase : t.pre.phase with
  | .hinted f polled =>
    decidable_of_iff
      (f.c.serverDifficultyHint.all fun d => decide (f.record.payload.memoryCost < d))
      ⟨fun h g p d hg hd => by
          rw [hphase] at hg
          cases hg
          rw [hd] at h
          exact of_decide_eq_true h,
        fun h => by
          cases hd : f.c.serverDifficultyHint with
          | none => rfl
          | some d => exact decide_eq_true (h f polled d hphase hd)⟩
  | .idle | .posted _ | .drained | .confirming _ _ =>
    isTrue fun f polled d h => by rw [hphase] at h; cases h

/-- When a row is about to be parked, the poller has read nothing since the hint, or a
difficulty above the row's own. -/
def ParksAbovePoll (t : Trans Machine Turn) : Prop :=
  ∀ env f d, t.ev = .drain env → t.pre.phase = .hinted f (some d) →
    f.c.nextStatus = .parkedDifficulty → f.record.payload.memoryCost < d

theorem ParkedBelow.congr {m m' : SubmissionManager} (h : ParkedBelow m) (hj : m'.journal.finds = m.journal.finds)
    (hd : m'.lastDifficulty = m.lastDifficulty) : ParkedBelow m' := by
  intro d hlast r hr
  rw [hd] at hlast
  rw [hj] at hr
  exact h d hlast r hr

namespace SubmissionManager

variable {cfg : Config} {env : StepEnv} {m m' : SubmissionManager} {ctx ctx' : StepCtx}

/-- An observation un-parks, or finds nothing to un-park. -/
theorem Observed.parkedBelow {d : UInt32} (hp : ParkedBelow m) (h : Observed d m m') :
    ParkedBelow m' := by
  intro e he r hr hs
  rw [h.lastDifficulty, Option.some.injEq] at he
  subst he
  rw [h.finds] at hr
  by_cases hq : m.requalifies d = true
  · rw [if_pos hq] at hr
    obtain ⟨r0, hr0, rfl⟩ := List.mem_map.1 hr
    unfold Finds.unparkedAt at hs ⊢
    split_ifs at hs ⊢ with hd
    have hlt := not_and.1 hd hs
    exact UInt32.not_le.1 hlt
  · rw [if_neg hq] at hr
    unfold requalifies at hq
    cases hprev : m.lastDifficulty with
    | none => simp [hprev] at hq
    | some prev =>
      have hge : ¬ d < prev := by simpa [hprev] using hq
      exact UInt32.lt_of_lt_of_le (hp prev hprev r hr hs) (UInt32.not_lt.1 hge)

theorem Probed.parkedBelow (h : Probed cfg env ctx ctx') (hp : ParkedBelow ctx.mgr) :
    ParkedBelow ctx'.mgr := by
  induction h with
  | refl => exact hp
  | date o _ ih => exact ih hp
  | note body field d _ _ _ _ ih => exact ih ((noteDifficulty_spec d _).1.parkedBelow hp)

/-- An attempt keeps the parked rows below, unless it parks a row that is not. -/
theorem attempt_parkedBelow {rec : FindRecord} {c : Classification} {http : Option Int}
    {body : String} {next : Option String} {now : String} (hp : ParkedBelow m)
    (hrec : rec ∈ m.journal.finds.rows)
    (hrows : m'.journal.finds.rows =
      m.journal.finds.rows.map (Finds.attemptAt rec.id c http body next now))
    (hd : m'.lastDifficulty = m.lastDifficulty)
    (hbelow : c.nextStatus = .parkedDifficulty →
      ∀ d, m.lastDifficulty = some d → rec.payload.memoryCost < d) : ParkedBelow m' := by
  intro d hlast r hr hs
  rw [hd] at hlast
  rw [hrows] at hr
  obtain ⟨r0, hr0, rfl⟩ := List.mem_map.1 hr
  unfold Finds.attemptAt at hs ⊢
  split_ifs at hs ⊢ with hid
  · rw [Finds.eq_of_id hr0 hrec hid]
    exact hbelow hs d hlast
  · exact hp d hlast r0 hr0 hs

/-- A parked row was parked by the answer itself, which carried a hint. -/
theorem Settled.parked {f : Inflight} {c : Classification} {kind : FindKind}
    (hc : Classified kind f.c) (h : Settled env f c) :
    (c.nextStatus = .parkedDifficulty ↔ f.c.nextStatus = .parkedDifficulty) ∧
      (f.c.nextStatus = .parkedDifficulty → ∃ d, f.c.serverDifficultyHint = some d) := by
  constructor
  · generalize hfc : f.c = fc at hc
    cases h with
    | asked hn => rw [hfc]
    | acked c hn h200 hbody hs =>
      rw [hfc] at hn
      rw [hs]
      cases hc <;> simp at hn ⊢
    | absent c hn hs =>
      rw [hfc] at hn
      rw [hs]
      cases hc <;> simp at hn ⊢
    | unproven c hn hs => rw [hs, hfc]
  · intro hs
    generalize f.c = fc at hc hs
    cases hc <;> simp at hs ⊢

end SubmissionManager

/-! ## Runs -/

/-- What carries the un-park along a run: at every moment the parked rows are below the
last difficulty, and behind a hint that is the poller's last reading or the hint. -/
structure Unparking (s : Machine) : Prop where
  held : s.phase.Held s.finds
  below : ParkedBelow s.mgr
  polled : ∀ f polled d, s.phase = .hinted f polled → f.c.serverDifficultyHint = some d →
    s.mgr.lastDifficulty = some (polled.getD d)

theorem appended_parkedBelow {s : Machine} (payload : FoundPayload) (h : ParkedBelow s.mgr) :
    ParkedBelow (s.appended payload).mgr := by
  intro d hd r hr hs
  refine h d hd r ?_ hs
  have hrows : (s.appended payload).finds.rows = (s.finds.append payload).2.rows := rfl
  change r ∈ (s.appended payload).finds.rows at hr
  rw [hrows] at hr
  unfold Finds.append at hr
  split at hr
  · exact hr
  · rcases List.mem_append.1 hr with hr | hr
    · exact hr
    · rw [List.mem_singleton.1 hr] at hs
      unfold Finds.newRecord Finds.initialStatus at hs
      dsimp only at hs
      split_ifs at hs

theorem windowed_parkedBelow {m m' : SubmissionManager} {maxWindows : Int}
    (hj : m'.journal.finds = m.journal.finds.unparkXuniForWindow maxWindows)
    (hd : m'.lastDifficulty = m.lastDifficulty) (h : ParkedBelow m) : ParkedBelow m' := by
  intro d hlast r hr hs
  rw [hd] at hlast
  rw [hj, Finds.unparkXuniForWindow_rows] at hr
  obtain ⟨r0, hr0, rfl⟩ := List.mem_map.1 hr
  unfold Finds.windowed Finds.unparkedXuni Finds.exhausted at hs ⊢
  split_ifs at hs ⊢
  · exact h d hlast r0 hr0 hs

theorem Part.unparking {cfg : Config} {env : StepEnv} {s s' : Machine} (hI : Unparking s)
    (h : Part cfg env s s') (hhint : HintsAbove ⟨s, .drain env, s'⟩)
    (hpoll : ParksAbovePoll ⟨s, .drain env, s'⟩) : Unparking s' := by
  have hheld := h.held hI.held
  cases h with
  | quiet hj hd hp hn =>
    refine ⟨hheld, hI.below.congr hj hd, fun f polled d hphase => ?_⟩
    rw [hphase] at hn
    exact absurd trivial hn
  | probe c c' hc hp hj hd hphase =>
    have hbelow : ParkedBelow c'.mgr := hp.parkedBelow
      (hI.below.congr (congrArg Journal.finds hc.journal) hc.lastDifficulty)
    refine ⟨hheld, hbelow.congr hj hd, fun f polled d hph => ?_⟩
    rw [hphase] at hph
    cases hph
  | post hj hd hphase =>
    refine ⟨hheld, ?_, fun f polled d hph => ?_⟩
    · rcases hj with hj | hj
      · exact hI.below.congr hj hd
      · exact windowed_parkedBelow hj hd hI.below
    · rcases hphase with h | ⟨g, h, -⟩ <;> (rw [h] at hph; cases hph)
  | hint f hphase hphase' h =>
    rcases h with ⟨hnone, h⟩ | ⟨d, hd, h⟩
    · refine ⟨hheld, ?_, fun g polled e hph he => ?_⟩
      · unfold Machine.mgr
        rw [h]
        exact hI.below
      · rw [hphase'] at hph
        cases hph
        rw [hnone] at he
        cases he
    · refine ⟨hheld, h.parkedBelow hI.below, fun g polled e hph he => ?_⟩
      rw [hphase'] at hph
      cases hph
      rw [hd] at he
      rw [h.lastDifficulty]
      exact he
  | record f polled hphase hphase' h =>
    have hrow := hI.held
    rw [hphase] at hrow
    obtain ⟨http, body, next, now, hrows⟩ := h.rows
    refine ⟨hheld, attempt_parkedBelow hI.below hrow.1 hrows h.lastDifficulty ?_, ?_⟩
    · intro hs d hlast
      obtain ⟨hiff, hhas⟩ := Settled.parked hrow.2.2 (@settle_settled cfg env f)
      have hparked := hiff.1 hs
      obtain ⟨e, he⟩ := hhas hparked
      have hpolled := hI.polled f polled e hphase he
      change s.mgr.lastDifficulty = some d at hlast
      rw [hpolled, Option.some.injEq] at hlast
      subst hlast
      cases polled with
      | none => exact hhint f none e hphase he
      | some p => exact hpoll env f p rfl hphase hparked
    · intro g polled d hph
      rw [hphase'] at hph
      cases hph
  | retry i rec rest hphase hphase' h =>
    have hrow := hI.held
    rw [hphase] at hrow
    obtain ⟨c, http, body, next, now, hrows, hc⟩ := h.rows
    refine ⟨hheld, attempt_parkedBelow hI.below (hrow.1 rec (by simp)).1 hrows h.lastDifficulty ?_,
      ?_⟩
    · intro hs
      rcases hc with ⟨hc, -⟩ | hc | hc <;> (rw [hc] at hs; cases hs)
    · intro g polled d hph
      rcases hphase' with h | h <;> (rw [h] at hph; cases hph)

theorem Machine.turn_unparking {cfg : Config} {s : Machine} {t : Turn} (hI : Unparking s)
    (hhint : HintsAbove ⟨s, t, s.turn cfg t⟩) (hpoll : ParksAbovePoll ⟨s, t, s.turn cfg t⟩) :
    Unparking (s.turn cfg t) := by
  have hheld := @turn_held cfg _ t hI.held
  cases t with
  | append payload => exact ⟨hheld, appended_parkedBelow payload hI.below, hI.polled⟩
  | observe d mono =>
    have hobs := @observeDifficulty_spec cfg s.mgr d mono
    refine ⟨hheld, hobs.parkedBelow hI.below, fun f polled e hph _ => ?_⟩
    have hlast : (s.turn cfg (.observe d mono)).mgr.lastDifficulty = some d := hobs.lastDifficulty
    rw [hlast]
    unfold turn observed at hph
    dsimp only at hph
    cases hphase : s.phase <;> rw [hphase] at hph <;> cases hph
    rfl
  | drain env => exact (drain_part hI.held).unparking hI hhint hpoll
  | restart =>
    refine ⟨hheld, fun d hd => ?_, fun f polled d hph => ?_⟩
    · cases hd
    · cases hph

/-- Parking a row at or above the poller's reading loses its un-park. -/
theorem Machine.turn_lost {cfg : Config} {s : Machine} {t : Turn} (hI : Unparking s)
    (hpoll : ¬ ParksAbovePoll ⟨s, t, s.turn cfg t⟩) : ¬ NoLostUnpark (s.turn cfg t) := by
  intro hno
  refine hpoll fun env f d hev hphase hparked => ?_
  dsimp only at hev hphase
  subst hev
  have hrow := hI.held
  rw [hphase] at hrow
  obtain ⟨hphase', h⟩ := @drain_recorded cfg env _ _ _ hI.held hphase
  change NoLostUnpark (s.drain cfg env) at hno
  obtain ⟨hiff, hhas⟩ := Settled.parked hrow.2.2 (@settle_settled cfg env f)
  obtain ⟨e, he⟩ := hhas hparked
  have hlast : (s.drain cfg env).mgr.lastDifficulty = some d :=
    h.lastDifficulty.trans (hI.polled f (some d) e hphase he)
  obtain ⟨http, body, next, now, hrows⟩ := h.rows
  have hmem : Finds.attemptAt f.record.id (settle cfg env f).1 http body next now f.record ∈
      (s.drain cfg env).finds.rows := by
    unfold finds
    rw [hrows]
    exact List.mem_map_of_mem hrow.1
  rw [Finds.attemptAt, if_pos rfl] at hmem
  have hidle : ¬ (s.drain cfg env).phase.InFlight := by
    rw [hphase']
    exact id
  have hlt := hno hidle d hlast _ hmem (hiff.2 hparked)
  exact hlt

/-- Over every interleaving of captures, poller readings, parts of the drain thread and
restarts, in which every 401 that parks a row hints above the row's memory cost: no un-park
is lost in any state if and only if no row is parked at or above a difficulty the poller
read between the hint and the park. -/
theorem no_lost_unpark_iff (cfg : Config) (journal : Journal) (turns : List Turn)
    (hhints : ∀ t ∈ trace (Machine.turn cfg) (.start cfg journal) turns, HintsAbove t) :
    let ts := trace (Machine.turn cfg) (.start cfg journal) turns
    (∀ s ∈ visited (.start cfg journal) ts, NoLostUnpark s) ↔ ∀ t ∈ ts, ParksAbovePoll t := by
  intro ts
  have hrun := (Run.trace (Machine.turn cfg) (.start cfg journal) turns).restrict hhints
  refine hrun.forall_iff (I := Unparking) (fun s h _ => h.below) ?_ ?_ ?_
  · rintro ⟨s, t, s'⟩ ⟨hstep, hhint⟩ hI hC
    dsimp only at hstep hI
    subst hstep
    exact Machine.turn_unparking hI hhint hC
  · rintro ⟨s, t, s'⟩ ⟨hstep, -⟩ hI hC
    dsimp only at hstep hI
    subst hstep
    exact Machine.turn_lost hI hC
  · refine ⟨trivial, fun d hd => ?_, fun f polled d hph => ?_⟩
    · cases hd
    · cases hph

/-- One row of memory cost 100, answered 401 with a hint of 101. The poller reads 100
before the row is parked. -/
def pollBeforePark : List Turn :=
  [.drain { StepEnv.silent 0 with submit := .ok 401 "m=101" }, .drain (.silent 0), .observe 100 0,
    .drain (.silent 0)]

def pollBeforeParkStart : Machine := .start .default (.ofCaptures [.sample "k" .xen11 100])

theorem pollBeforePark_hints :
    ∀ t ∈ trace (Machine.turn .default) pollBeforeParkStart pollBeforePark, HintsAbove t := by
  decide

theorem no_lost_unpark_iff_poll :
    (∀ s ∈ visited pollBeforeParkStart
      (trace (Machine.turn .default) pollBeforeParkStart pollBeforePark), NoLostUnpark s) ↔
    ∀ t ∈ trace (Machine.turn .default) pollBeforeParkStart pollBeforePark, ParksAbovePoll t :=
  no_lost_unpark_iff .default _ pollBeforePark (by decide)

/-- The row stays parked at the very difficulty the server asks for. -/
theorem lost_unpark :
    (∀ t ∈ trace (Machine.turn .default) pollBeforeParkStart pollBeforePark, HintsAbove t) ∧
    ¬ ∀ s ∈ visited pollBeforeParkStart
      (trace (Machine.turn .default) pollBeforeParkStart pollBeforePark), NoLostUnpark s := by
  refine ⟨pollBeforePark_hints, fun h => ?_⟩
  have hend := h (pollBeforePark.foldl (Machine.turn .default) pollBeforeParkStart)
    (by simp [visited, trace, pollBeforePark])
  have hidle : ¬ (pollBeforePark.foldl (Machine.turn .default) pollBeforeParkStart).phase.InFlight :=
    by decide
  have hread : (pollBeforePark.foldl (Machine.turn .default) pollBeforeParkStart).mgr.lastDifficulty
      = some 100 := by decide
  have hrow : ∃ r ∈ (pollBeforePark.foldl (Machine.turn .default) pollBeforeParkStart).finds.rows,
      r.status = .parkedDifficulty ∧ r.payload.memoryCost = 100 := by decide
  obtain ⟨r, hr, hparked, hm⟩ := hrow
  have hlt := hend hidle 100 hread r hr hparked
  rw [hm] at hlt
  exact absurd hlt (by decide)

end TreeMiner
