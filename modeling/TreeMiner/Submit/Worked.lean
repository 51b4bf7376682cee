import TreeMiner.Submit.Interleave

/-! What a whole `run_once` does to the rows: past the pacing gate it first keeps the
window's books, and then, as every step, it works: attempts, lookups and un-parks that
charge no window and confirm no row without a lookup to show for it. -/

namespace TreeMiner

open Lib SubmissionManager

/-- A step that gets past the pacing gate of `submit_step`. -/
structure Gated (m : SubmissionManager) (env : StepEnv) : Prop where
  live : m.fatal = false
  notOpen : m.breaker.state ≠ .opened
  due : m.nextSubmitAllowedMs ≤ env.mono .gate

instance : DecidableRel Gated := fun m env =>
  decidable_of_iff (m.fatal = false ∧ m.breaker.state ≠ .opened ∧
      m.nextSubmitAllowedMs ≤ env.mono .gate)
    ⟨fun h => ⟨h.1, h.2.1, h.2.2⟩, fun h => ⟨h.live, h.notOpen, h.due⟩⟩

/-- A lookup of the trace confirms the row: a 200 whose body the checks accept. -/
def Confirmed (trace : List Action) (r : FindRecord) : Prop :=
  ∃ rec answer, .getBlock rec answer ∈ trace ∧ rec.id = r.id ∧ rec.payload = r.payload ∧
    isHttp200 answer = true ∧ confirmationMatches rec answer.body = .confirmed

/-- One row before and after the work of a step. -/
structure WorkedRow (trace : List Action) (r r' : FindRecord) : Prop where
  id : r'.id = r.id
  payload : r'.payload = r.payload
  tried : r'.xuniWindowsTried = r.xuniWindowsTried
  spared : r.status = .dead ∨ r.status = .parkedXuniWindow → r' = r
  acked : r'.status = .acked → r.status = .acked ∨ Confirmed trace r

def Worked (trace : List Action) (t t' : Finds) : Prop :=
  ∃ g, t'.rows = t.rows.map g ∧ ∀ r ∈ t.rows, WorkedRow trace r (g r)

theorem WorkedRow.refl {trace : List Action} (r : FindRecord) : WorkedRow trace r r :=
  ⟨rfl, rfl, rfl, fun _ => rfl, Or.inl⟩

namespace Worked

variable {trace : List Action} {t t' t'' : Finds}

theorem refl : Worked trace t t := ⟨fun r => r, by simp, fun r _ => .refl r⟩

theorem trans (h : Worked trace t t') (h' : Worked trace t' t'') : Worked trace t t'' := by
  obtain ⟨g, hg, hrow⟩ := h
  obtain ⟨g', hg', hrow'⟩ := h'
  refine ⟨g' ∘ g, by rw [hg', hg, List.map_map], fun r hr => ?_⟩
  have h1 := hrow r hr
  have h2 := hrow' (g r) (by rw [hg]; exact List.mem_map_of_mem hr)
  refine ⟨h2.id.trans h1.id, h2.payload.trans h1.payload, h2.tried.trans h1.tried, fun hs => ?_,
    fun hs => ?_⟩
  · have hsame := h1.spared hs
    rw [Function.comp_apply, hsame]
    rw [hsame] at h2
    exact h2.spared hs
  · rcases h2.acked hs with h | ⟨rec, answer, hmem, hid, hpay, hrest⟩
    · exact h1.acked h
    · exact Or.inr ⟨rec, answer, hmem, hid.trans h1.id, hpay.trans h1.payload, hrest⟩

theorem attempt {rec : FindRecord} {c : Classification} {http : Option Int} {body : String}
    {next : Option String} {now : String} (hrec : rec ∈ t.rows)
    (hs : rec.status = .pending ∨ rec.status = .acceptedUnconfirmed)
    (hc : c.nextStatus = .acked → Confirmed trace rec)
    (h : t'.rows = t.rows.map (Finds.attemptAt rec.id c http body next now)) :
    Worked trace t t' := by
  refine ⟨_, h, fun r hr => ?_⟩
  unfold Finds.attemptAt
  split_ifs with hid
  · rw [Finds.eq_of_id hr hrec hid]
    refine ⟨rfl, rfl, rfl, fun hs' => ?_, fun hacked => Or.inr (hc hacked)⟩
    rcases hs with hs | hs <;> simp [hs] at hs'
  · exact .refl r

theorem observed {d : UInt32} {m m' : SubmissionManager} (h : Observed d m m') :
    Worked trace m.journal.finds m'.journal.finds := by
  rw [h.finds]
  split_ifs
  · refine ⟨_, rfl, fun r _ => ?_⟩
    unfold Finds.unparkedAt
    split_ifs with hp
    · exact ⟨rfl, rfl, rfl, fun hs => by simp [hp.1] at hs, fun hs => by simp at hs⟩
    · exact .refl r
  · exact refl

theorem probed {cfg : Config} {env : StepEnv} {ctx ctx' : StepCtx} (h : Probed cfg env ctx ctx') :
    Worked trace ctx.mgr.journal.finds ctx'.mgr.journal.finds ∧
      ctx'.mgr.lastWindowOpen = ctx.mgr.lastWindowOpen := by
  induction h with
  | refl => exact ⟨refl, rfl⟩
  | date o _ ih => exact ih
  | @note ctx ctx' body field d _ _ _ _ ih =>
    have hobs := (@noteDifficulty_spec cfg env d ctx).1
    exact ⟨(observed hobs).trans ih.1, ih.2.trans hobs.window⟩

theorem rounds {lookups : Nat → Lookup} {i : Nat} {batch : List FindRecord} {ctx ctx' : StepCtx}
    (h : Rounds lookups i batch ctx ctx')
    (hrows : ∀ r ∈ batch, r ∈ ctx.mgr.journal.finds.rows ∧ r.status = .acceptedUnconfirmed)
    (hdistinct : batch.Pairwise fun a b => a.id ≠ b.id) :
    Worked ctx'.trace ctx.mgr.journal.finds ctx'.mgr.journal.finds ∧
      ctx'.mgr.lastWindowOpen = ctx.mgr.lastWindowOpen ∧ ctx.trace ⊆ ctx'.trace := by
  induction h with
  | done => exact ⟨refl, rfl, List.Subset.refl _⟩
  | @round i rec rest ctx ctx1 ctx2 hone _ ih =>
    obtain ⟨c, http, body, next, now, hmap, hc⟩ := hone.rows
    obtain ⟨hrec, hs⟩ := hrows rec List.mem_cons_self
    obtain ⟨hne, hrest⟩ := List.pairwise_cons.1 hdistinct
    obtain ⟨hwork, hflag, htrace⟩ := ih
      (fun r hr => ⟨mem_attempt hmap (hrows r (List.mem_cons_of_mem _ hr)).1
        fun he => hne r hr he.symm, (hrows r (List.mem_cons_of_mem _ hr)).2⟩) hrest
    have hsub : ctx.trace ++ [.getBlock rec (lookups i).answer] ⊆ ctx2.trace := by
      rw [← hone.trace]
      exact htrace
    have hacked : c.nextStatus = .acked → Confirmed ctx2.trace rec := by
      intro ha
      rcases hc with ⟨-, h200, hbody⟩ | h | h
      · exact ⟨rec, (lookups i).answer, hsub (by simp), rfl, rfl, h200, hbody⟩
      · rw [h] at ha; cases ha
      · rw [h] at ha; cases ha
    exact ⟨(attempt hrec (Or.inr hs) hacked hmap).trans hwork, hflag.trans hone.window,
      fun a ha => hsub (List.mem_append_left _ ha)⟩

theorem confirmed {cfg : Config} {env : StepEnv} {ctx ctx' : StepCtx} {rc : StepResult}
    (h : confirmStep cfg env ctx = (.ok rc, ctx')) :
    Worked ctx'.trace ctx.mgr.journal.finds ctx'.mgr.journal.finds ∧
      ctx'.mgr.lastWindowOpen = ctx.mgr.lastWindowOpen ∧ ctx.trace ⊆ ctx'.trace := by
  rcases @confirmStep_cases cfg env ctx with h' | ⟨c, h', -, hr⟩
  · rw [h'] at h
    cases h
    exact ⟨refl, rfl, List.Subset.refl _⟩
  · rw [h'] at h
    cases h
    exact rounds hr (fun r hr => confirmBatch_mem hr) confirmBatch_pairwise

end Worked

/-! ## The whole step -/

namespace SubmissionManager

variable {cfg : Config} {env : StepEnv} {m m' : SubmissionManager} {ctx ctx' : StepCtx}

/-- The bookkeeping reads what the headroom update leaves alone. -/
theorem trackWindow_congr (h : SameWork m m') (wall : Int) :
    (m'.trackWindow cfg wall).2.journal.finds = (m.trackWindow cfg wall).2.journal.finds ∧
      (m'.trackWindow cfg wall).2.lastWindowOpen =
        (xuniWindowAt (wall + m.serverOffsetMs.getD 0)).isOpen := by
  obtain ⟨hw, finds, heq, hf⟩ := @trackWindow_spec cfg m wall
  obtain ⟨hw', finds', heq', hf'⟩ := @trackWindow_spec cfg m' wall
  rw [h.offset] at hw'
  rw [hw', h.window, h.journal] at hf'
  rw [hw] at hf
  rw [heq, heq', hf, hf']
  exact ⟨rfl, congrArg XuniWindowState.isOpen hw'⟩

theorem submitHint_worked (trace : List Action) (f : Inflight) :
    Worked trace ctx.mgr.journal.finds (submitHint cfg env f ctx).mgr.journal.finds ∧
      (submitHint cfg env f ctx).mgr.lastWindowOpen = ctx.mgr.lastWindowOpen := by
  rcases @submitHint_cases cfg env f ctx with ⟨-, h⟩ | ⟨d, -, h⟩
  · rw [h]
    exact ⟨.refl, rfl⟩
  · exact ⟨.observed h, h.window⟩

/-- A recorded row is acked by the inline lookup only. -/
theorem Recorded.worked {f : Inflight} {trace : List Action} {kind : FindKind}
    (h : Recorded cfg env f ctx ctx') (hc : Classified kind f.c)
    (hrow : f.record ∈ ctx.mgr.journal.finds.rows) (hs : f.record.status = .pending)
    (htrace : ctx'.trace ⊆ trace) :
    Worked trace ctx.mgr.journal.finds ctx'.mgr.journal.finds := by
  obtain ⟨http, body, next, now, hmap⟩ := h.rows
  refine .attempt hrow (Or.inl hs) (fun hacked => ?_) hmap
  have hset := @settle_settled cfg env f
  have hnot := hc.ne_acked
  have htr := h.trace
  generalize (settle cfg env f).1 = c at hset hacked htr
  cases hset with
  | asked => exact absurd hacked hnot
  | acked c hn h200 hbody hs =>
    refine ⟨f.record, env.confirm, htrace ?_, rfl, rfl, h200, hbody⟩
    rw [htr, lookupTrace, if_pos hn]
    simp
  | absent c hn hs => rw [hs] at hacked; cases hacked
  | unproven c hn hs => rw [hs] at hacked; exact absurd hacked hnot

/-- Where a submission stands behind the window bookkeeping. -/
theorem Posted.window {p : Except StepResult Inflight × StepCtx} (h : Posted cfg env ctx p) :
    (env.mono .gate < ctx.mgr.nextSubmitAllowedMs ∧ p = (.error .idle, ctx)) ∨
    (ctx.mgr.nextSubmitAllowedMs ≤ env.mono .gate ∧
      p.2.mgr.journal.finds = (ctx.mgr.trackWindow cfg (env.wall .window)).2.journal.finds ∧
      p.2.mgr.lastWindowOpen = (ctx.mgr.trackWindow cfg (env.wall .window)).2.lastWindowOpen) := by
  cases h with
  | paced h => exact Or.inl ⟨h, rfl⟩
  | held h => exact Or.inr ⟨h, rfl, rfl⟩
  | nothing h p => exact Or.inr ⟨h, rfl, rfl⟩
  | blocked h p hb => exact Or.inr ⟨h, rfl, rfl⟩
  | sent h p o f hb hrow hpending hres hc => exact Or.inr ⟨h, rfl, rfl⟩

/-- The row on its way to the server, as the hint leaves it. -/
theorem Posted.inflight {f : Inflight} {ctx1 : StepCtx} (h : Posted cfg env ctx (.ok f, ctx1)) :
    f.record ∈ (submitHint cfg env f ctx1).mgr.journal.finds.rows ∧ f.record.status = .pending ∧
      Classified f.record.payload.kind f.c := by
  cases h with
  | sent h p o g hb hrow hpending hres hc =>
    refine ⟨?_, hpending, by rw [hc]; exact classify_spec _ _ _ _⟩
    rcases @submitHint_cases cfg env f _ with ⟨-, h⟩ | ⟨d, -, h⟩
    · rw [h]
      exact hrow
    · exact h.keeps _ hrow (by rw [hpending]; simp)

/-- A step that passes the gate keeps the window's books and then works; the flag it leaves
is the window it saw. Any other step works without the books. -/
theorem stepMgr_worked (m : SubmissionManager) :
    (Gated m env ∧ Worked (m.runOnce cfg env).2.trace
        (m.trackWindow cfg (env.wall .window)).2.journal.finds (stepMgr cfg m env).journal.finds ∧
      (stepMgr cfg m env).lastWindowOpen =
        (xuniWindowAt (env.wall .window + m.serverOffsetMs.getD 0)).isOpen) ∨
    (¬ Gated m env ∧ Worked (m.runOnce cfg env).2.trace m.journal.finds
        (stepMgr cfg m env).journal.finds ∧
      (stepMgr cfg m env).lastWindowOpen = m.lastWindowOpen) := by
  unfold stepMgr
  rcases @runOnce_cases cfg env m with ⟨hf, hr⟩ | ⟨hf, hs⟩
  · rw [hr]
    exact Or.inr ⟨fun h => by simp [h.live] at hf, .refl, rfl⟩
  have hsame := (@updateMargin_spec cfg env ⟨m, [], []⟩).1
  obtain ⟨hbooks, hflag⟩ := @trackWindow_congr cfg _ _ hsame (env.wall .window)
  have hfinds := congrArg Journal.finds hsame.journal
  generalize (runOnce cfg m env).2 = ctx' at hs
  generalize (runOnce cfg m env).1 = r at hs
  cases hs with
  | probe r c hopen hp =>
    refine Or.inr ⟨fun h => h.notOpen hopen, ?_⟩
    rcases @probeStep_cases cfg env (updateMargin cfg env ⟨m, [], []⟩) with
      h | ⟨c1, b, hprobed, -, h⟩
    · rw [h] at hp
      cases hp
      rw [hfinds]
      exact ⟨.refl, hsame.window⟩
    · rw [h] at hp
      cases hp
      obtain ⟨hwork, hkeep⟩ := Worked.probed hprobed
      rw [hfinds] at hwork
      exact ⟨hwork, hkeep.trans hsame.window⟩
  | early r r' rc c1 c2 hopen hp hc hr =>
    obtain ⟨hwork, hkeep, -⟩ := Worked.confirmed hc
    rcases (posted_of_eq hp).window with ⟨hlt, he⟩ | ⟨hge, hj, hw⟩
    · cases he
      rw [hsame.nextSubmit] at hlt
      rw [hfinds] at hwork
      refine Or.inr ⟨fun h => ?_, hwork, hkeep.trans hsame.window⟩
      have hdue := h.due
      dsimp only at hlt
      omega
    · rw [hsame.nextSubmit] at hge
      dsimp only at hj hw
      rw [hj, hbooks] at hwork
      exact Or.inl ⟨⟨hf, hopen, hge⟩, hwork, hkeep.trans (hw.trans hflag)⟩
  | submit f rc c1 c2 c3 hopen hp hrec hc =>
    obtain ⟨hwork3, hkeep3, htrace⟩ := Worked.confirmed hc
    obtain ⟨hwork1, hkeep1⟩ := @submitHint_worked cfg env c1 ctx'.trace f
    obtain ⟨hrow, hpending, hclass⟩ := (posted_of_eq hp).inflight
    have hwork2 := hrec.worked hclass hrow hpending htrace
    rcases (posted_of_eq hp).window with ⟨-, he⟩ | ⟨hge, hj, hw⟩
    · cases he
    · rw [hsame.nextSubmit] at hge
      dsimp only at hj hw
      rw [hj, hbooks] at hwork1
      refine Or.inl ⟨⟨hf, hopen, hge⟩, hwork1.trans (hwork2.trans hwork3), ?_⟩
      exact hkeep3.trans (hrec.window.trans (hkeep1.trans (hw.trans hflag)))

end SubmissionManager

end TreeMiner
