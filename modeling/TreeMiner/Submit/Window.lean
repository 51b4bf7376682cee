import TreeMiner.Submit.Worked

/-! The XUNI windows over runs of `run_once`. The step remembers whether the window was
open when it last passed the pacing gate; a window that opens against that memory
un-parks the XUNI. -/

namespace TreeMiner

open Lib SubmissionManager

/-- The server-clock minute of an instant, within its hour. -/
def serverMinute (t : Int) : Int := t / 60000 % 60

def InWindow (t : Int) : Prop := 55 ≤ serverMinute t ∨ serverMinute t < 5

instance : DecidablePred InWindow := fun _ => inferInstanceAs (Decidable (_ ∨ _))

/-- Two instants, the earlier first, within one stretch of open window. -/
def SameWindow (a b : Int) : Prop := ∀ t, a ≤ t → t ≤ b → InWindow t

/-- The server-clock instant at which a step looks for the window. -/
def serverTime (t : Trans SubmissionManager StepEnv) : Int :=
  t.ev.wall .window + t.pre.serverOffsetMs.getD 0

/-- The finds behind a step's window bookkeeping, before it submits anything. -/
def bookkept (cfg : Config) (t : Trans SubmissionManager StepEnv) : Finds :=
  (t.pre.trackWindow cfg (t.ev.wall .window)).2.journal.finds

/-- The step un-parks: the bookkeeping charges every parked XUNI a window, or ends it, and
what the step does then changes no charge and no ended row. -/
structure Unparks (cfg : Config) (t : Trans SubmissionManager StepEnv) : Prop where
  rows : (bookkept cfg t).rows = t.pre.journal.finds.rows.map (Finds.windowed cfg.xuniMaxWindows)
  charged : ∀ r ∈ t.pre.journal.finds.rows, ∃ r' ∈ t.post.journal.finds.rows, r'.id = r.id ∧
    r'.xuniWindowsTried = (Finds.windowed cfg.xuniMaxWindows r).xuniWindowsTried ∧
    ((Finds.windowed cfg.xuniMaxWindows r).status = .dead →
      r' = Finds.windowed cfg.xuniMaxWindows r)

/-- The step un-parks nothing: every parked XUNI is left as it is, and no row is charged. -/
structure LeavesParked (t : Trans SubmissionManager StepEnv) : Prop where
  parked : ∀ r ∈ t.pre.journal.finds.rows, r.status = .parkedXuniWindow →
    r ∈ t.post.journal.finds.rows
  charged : ∀ r ∈ t.pre.journal.finds.rows, ∃ r' ∈ t.post.journal.finds.rows, r'.id = r.id ∧
    r'.xuniWindowsTried = r.xuniWindowsTried

/-- The first step past the gate in a window un-parks the XUNI, and no later step of that
window does. -/
def WindowsUnparkOnce (cfg : Config) (ts : List (Trans SubmissionManager StepEnv)) : Prop :=
  ∀ before t after, ts = before ++ t :: after → InWindow (serverTime t) →
    (Gated t.pre t.ev →
      (∀ a ∈ before, Gated a.pre a.ev → ¬ SameWindow (serverTime a) (serverTime t)) →
      Unparks cfg t) ∧
    ((∃ a ∈ before, Gated a.pre a.ev ∧ SameWindow (serverTime a) (serverTime t)) →
      LeavesParked t)

/-- Two steps past the gate with none between them, both in a window, are in the same one. -/
def GapsSeen (ts : List (Trans SubmissionManager StepEnv)) : Prop :=
  ∀ before a between b after, ts = before ++ a :: between ++ b :: after →
    Gated a.pre a.ev → Gated b.pre b.ev → (∀ x ∈ between, ¬ Gated x.pre x.ev) →
    InWindow (serverTime a) → InWindow (serverTime b) → SameWindow (serverTime a) (serverTime b)

theorem isOpen_iff (t : Int) : (xuniWindowAt t).isOpen = true ↔ InWindow t := by
  have hhour : MS_PER_HOUR = 3600000 := rfl
  have hbefore : XUNI_OPEN_BEFORE_HOUR_MS = 300000 := rfl
  have hafter : XUNI_OPEN_AFTER_HOUR_MS = 300000 := rfl
  unfold xuniWindowAt InWindow serverMinute
  rw [floorDiv_eq _ (by decide)]
  dsimp only
  by_cases h1 : t - t / MS_PER_HOUR * MS_PER_HOUR ≥ MS_PER_HOUR - XUNI_OPEN_BEFORE_HOUR_MS
  · rw [if_pos h1]
    rw [hhour, hbefore] at h1
    have hin : 55 ≤ t / 60000 % 60 := by omega
    simp [hin]
  rw [if_neg h1]
  by_cases h2 : t - t / MS_PER_HOUR * MS_PER_HOUR < XUNI_OPEN_AFTER_HOUR_MS
  · rw [if_pos h2]
    rw [hhour, hafter] at h2
    have hin : t / 60000 % 60 < 5 := by omega
    simp [hin]
  · rw [if_neg h2]
    rw [hhour, hbefore] at h1
    rw [hhour, hafter] at h2
    have hout : ¬ (55 ≤ t / 60000 % 60 ∨ t / 60000 % 60 < 5) := by omega
    simp [hout]

/-- An open window closes at the fifth minute: of this hour, or of the next one. -/
theorem msUntilClose_eq {t : Int} (h : InWindow t) : (xuniWindowAt t).msUntilClose =
    if serverMinute t < 5 then 300000 - t % 3600000 else 3900000 - t % 3600000 := by
  have hhour : MS_PER_HOUR = 3600000 := rfl
  have hbefore : XUNI_OPEN_BEFORE_HOUR_MS = 300000 := rfl
  have hafter : XUNI_OPEN_AFTER_HOUR_MS = 300000 := rfl
  unfold InWindow serverMinute at h
  unfold xuniWindowAt serverMinute
  rw [floorDiv_eq _ (by decide)]
  dsimp only
  rw [hhour, hbefore, hafter]
  split_ifs <;> dsimp only <;> omega

/-- The window on the whole time line: its minutes, how long it stays open, when it closes,
and that it comes back every hour. -/
theorem xuniWindowAt_exact (t : Int) :
    ((xuniWindowAt t).isOpen = true ↔ (55 ≤ serverMinute t ∧ serverMinute t < 60) ∨
      (0 ≤ serverMinute t ∧ serverMinute t < 5)) ∧
    ((xuniWindowAt t).isOpen = true →
      0 < (xuniWindowAt t).msUntilClose ∧ (xuniWindowAt t).msUntilClose ≤ 600000 ∧
      (∀ u, t ≤ u → u < t + (xuniWindowAt t).msUntilClose → (xuniWindowAt u).isOpen = true) ∧
      (xuniWindowAt (t + (xuniWindowAt t).msUntilClose)).isOpen = false) ∧
    (xuniWindowAt (t + MS_PER_HOUR)).isOpen = (xuniWindowAt t).isOpen := by
  have hlow : 0 ≤ serverMinute t := Int.emod_nonneg _ (by decide)
  have hhigh : serverMinute t < 60 := Int.emod_lt_of_pos _ (by decide)
  refine ⟨?_, fun hopen => ?_, ?_⟩
  · rw [isOpen_iff]
    unfold InWindow
    omega
  · have hin := (isOpen_iff t).1 hopen
    have hclose := msUntilClose_eq hin
    generalize (xuniWindowAt t).msUntilClose = left at hclose
    simp only [isOpen_iff, ← Bool.not_eq_true]
    unfold InWindow serverMinute at *
    split_ifs at hclose
    · refine ⟨by omega, by omega, fun u hfrom hto => ?_, by omega⟩
      omega
    · refine ⟨by omega, by omega, fun u hfrom hto => ?_, by omega⟩
      omega
  · have hsame : InWindow (t + MS_PER_HOUR) ↔ InWindow t := by
      unfold InWindow serverMinute MS_PER_HOUR
      omega
    rw [Bool.eq_iff_iff, isOpen_iff, isOpen_iff]
    exact hsame

/-- One millisecond before 1970 the window is open for five minutes more. -/
theorem xuniWindowAt_exact_before_epoch : (xuniWindowAt (-1)).msUntilClose ≤ 600000 ∧
    (xuniWindowAt (-1 + (xuniWindowAt (-1)).msUntilClose)).isOpen = false := by
  obtain ⟨-, hopen, -⟩ := xuniWindowAt_exact (-1)
  obtain ⟨-, hle, -, hclosed⟩ := hopen (by decide)
  exact ⟨hle, hclosed⟩

/-- In wrapping `i64` arithmetic too, the remainder of the hour is right at every instant. -/
theorem intoHour_wrapping (t : Int) :
    (t - (floorDiv t MS_PER_HOUR * MS_PER_HOUR).bmod (2 ^ 64)).bmod (2 ^ 64) =
      t - floorDiv t MS_PER_HOUR * MS_PER_HOUR := by
  have hhour : MS_PER_HOUR = 3600000 := rfl
  rw [Int.sub_bmod_bmod, floorDiv_eq _ (by decide), hhour]
  exact Int.bmod_eq_of_le (by omega) (by omega)

/-! ## Runs -/

section Runs

variable {cfg : Config} {m u : SubmissionManager} {ts : List (Trans SubmissionManager StepEnv)}

/-- The flag is left alone while no step passes the gate. -/
theorem flag_of_ungated (h : Run (fun m env m' => m' = stepMgr cfg m env) m ts u)
    (hno : ∀ t ∈ ts, ¬ Gated t.pre t.ev) : u.lastWindowOpen = m.lastWindowOpen := by
  induction h with
  | nil => rfl
  | cons hs _ ih =>
    rw [ih fun t ht => hno t (List.mem_cons_of_mem _ ht), hs]
    rcases @stepMgr_worked cfg _ _ with ⟨hg, -⟩ | ⟨-, -, hflag⟩
    · exact absurd hg (hno _ List.mem_cons_self)
    · exact hflag

/-- The flag is the window as the last step past the gate saw it. -/
theorem flag_of_last {before after : List (Trans SubmissionManager StepEnv)}
    {t : Trans SubmissionManager StepEnv}
    (h : Run (fun m env m' => m' = stepMgr cfg m env) m (before ++ t :: after) u)
    (hg : Gated t.pre t.ev) (hno : ∀ x ∈ after, ¬ Gated x.pre x.ev) :
    u.lastWindowOpen = true ↔ InWindow (serverTime t) := by
  obtain ⟨-, hs, hrest⟩ := h.split
  rw [flag_of_ungated hrest hno, hs]
  rcases @stepMgr_worked cfg t.ev t.pre with ⟨-, -, hflag⟩ | ⟨hn, -⟩
  · rw [hflag]
    exact isOpen_iff _
  · exact absurd hg hn

/-- A step past the gate that finds the flag down un-parks. -/
theorem unparks_of_edge {t : Trans SubmissionManager StepEnv}
    (hs : t.post = stepMgr cfg t.pre t.ev) (hg : Gated t.pre t.ev) (hin : InWindow (serverTime t))
    (hflag : t.pre.lastWindowOpen = false) : Unparks cfg t := by
  have hopen : (xuniWindowAt (t.ev.wall .window + t.pre.serverOffsetMs.getD 0)).isOpen = true :=
    (isOpen_iff _).2 hin
  obtain ⟨hw, finds, heq, hf⟩ := @trackWindow_spec cfg t.pre (t.ev.wall .window)
  have hrows : (bookkept cfg t).rows =
      t.pre.journal.finds.rows.map (Finds.windowed cfg.xuniMaxWindows) := by
    rw [hw, hopen, hflag] at hf
    unfold bookkept
    rw [heq, hf]
    exact Finds.unparkXuniForWindow_rows _
  refine ⟨hrows, fun r hr => ?_⟩
  rcases @stepMgr_worked cfg t.ev t.pre with ⟨-, ⟨g, hg', hkeep⟩, -⟩ | ⟨hn, -⟩
  · have hmem : Finds.windowed cfg.xuniMaxWindows r ∈ (bookkept cfg t).rows := by
      rw [hrows]
      exact List.mem_map_of_mem hr
    have hrow := hkeep _ hmem
    refine ⟨g (Finds.windowed cfg.xuniMaxWindows r), ?_, ?_, hrow.tried,
      fun hd => hrow.spared (Or.inl hd)⟩
    · rw [hs, hg']
      exact List.mem_map_of_mem hmem
    · exact hrow.id.trans (Finds.windowed_id _ _)
  · exact absurd hg hn

/-- A step that works on the finds as it found them leaves the parked XUNI. -/
theorem leavesParked_of_worked {t : Trans SubmissionManager StepEnv} {trace : List Action}
    (h : Worked trace t.pre.journal.finds t.post.journal.finds) : LeavesParked t := by
  obtain ⟨g, hg, hkeep⟩ := h
  have hmem : ∀ r ∈ t.pre.journal.finds.rows, g r ∈ t.post.journal.finds.rows := fun r hr => by
    rw [hg]
    exact List.mem_map_of_mem hr
  refine ⟨fun r hr hparked => ?_,
    fun r hr => ⟨g r, hmem r hr, (hkeep r hr).id, (hkeep r hr).tried⟩⟩
  have hsame := (hkeep r hr).spared (Or.inr hparked)
  have hpost := hmem r hr
  rw [hsame] at hpost
  exact hpost

/-- A step in a window that finds the flag up leaves the parked XUNI. -/
theorem leavesParked_of_flag {t : Trans SubmissionManager StepEnv}
    (hs : t.post = stepMgr cfg t.pre t.ev) (hflag : t.pre.lastWindowOpen = true) :
    LeavesParked t := by
  apply leavesParked_of_worked
  obtain ⟨-, finds, heq, hf⟩ := @trackWindow_spec cfg t.pre (t.ev.wall .window)
  rw [hs]
  rcases @stepMgr_worked cfg t.ev t.pre with ⟨-, hwork, -⟩ | ⟨-, hwork, -⟩
  · rw [hflag, Bool.not_true, Bool.and_false, if_neg (by simp)] at hf
    rw [heq, hf] at hwork
    exact hwork
  · exact hwork

end Runs

/-- Over every run of steps from a fresh manager, under a non-decreasing wall clock and a
fixed server offset: as long as the gaps between windows are seen, every window un-parks
the XUNI once. -/
theorem windows_unpark_once (cfg : Config) (journal : Journal) (envs : List StepEnv) (offset : Int)
    (hclock : (trace (stepMgr cfg) (.new cfg journal) envs).Pairwise
      fun a b => a.ev.wall .window ≤ b.ev.wall .window)
    (hoffset : ∀ t ∈ trace (stepMgr cfg) (.new cfg journal) envs,
      t.pre.serverOffsetMs.getD 0 = offset)
    (hgaps : GapsSeen (trace (stepMgr cfg) (.new cfg journal) envs)) :
    WindowsUnparkOnce cfg (trace (stepMgr cfg) (.new cfg journal) envs) := by
  intro before t after hts hin
  have hrun := Run.trace (stepMgr cfg) (.new cfg journal) envs
  rw [hts] at hrun hclock hoffset
  obtain ⟨hbefore, hs, -⟩ := hrun.split
  constructor
  · intro hg hfirst
    refine unparks_of_edge hs hg hin ?_
    by_cases hgated : ∃ a ∈ before, Gated a.pre a.ev
    · obtain ⟨early, a, late, rfl, ha, hlate⟩ := exists_last hgated
      by_contra hflag
      have hopen := (flag_of_last hbefore ha hlate).1 (by simpa using hflag)
      refine hfirst a (by simp) ha (hgaps early a late t after ?_ ha hg hlate hopen hin)
      rw [hts, List.append_assoc, List.cons_append]
    · have hno : ∀ a ∈ before, ¬ Gated a.pre a.ev := fun a ha hga => hgated ⟨a, ha, hga⟩
      exact flag_of_ungated hbefore hno
  · rintro ⟨a, ha, hga, hsame⟩
    refine leavesParked_of_flag hs ?_
    obtain ⟨early, b, late, rfl, hb, hlate⟩ :=
      exists_last (P := fun x : Trans SubmissionManager StepEnv => Gated x.pre x.ev) ⟨a, ha, hga⟩
    obtain ⟨hclock', -, hbt⟩ := List.pairwise_append.1 hclock
    have hab : a.ev.wall .window ≤ b.ev.wall .window := by
      rcases List.mem_append.1 ha with h | h
      · exact (List.pairwise_append.1 hclock').2.2 a h b List.mem_cons_self
      · rcases List.mem_cons.1 h with rfl | h
        · exact le_refl _
        · exact absurd hga (hlate a h)
    have hoa := hoffset a (List.mem_append_left _ ha)
    have hob := hoffset b (by simp)
    have hot := hoffset t (by simp)
    have hbt' := hbt b (by simp) t List.mem_cons_self
    refine (flag_of_last hbefore hb hlate).2 (hsame _ ?_ ?_)
    · unfold serverTime
      omega
    · unfold serverTime
      omega

/-- An XUNI and a XEN11, both pending. -/
def twoFinds : SubmissionManager :=
  .new .default (.ofCaptures [.sample "x" .xuni 100, .sample "k" .xen11 100])

/-- At minute 3 the XUNI is rejected as out of its window, then three transport failures
open the breaker; a probe at minute 58 finds the server again. -/
def outageOverGap : List StepEnv :=
  [{ StepEnv.silent 200000 with submit := .ok 400 "outside of time window" },
    .silent 202000, .silent 210000, .silent 230000,
    { StepEnv.silent 3500000 with difficulty := .ok 200 "ok" }]

/-- The first step of the next window. -/
def nextWindow : StepEnv := .silent 3510000

theorem windows_unpark_once_early :
    WindowsUnparkOnce .default
      (trace (stepMgr .default) twoFinds (outageOverGap.take 4)) := by
  have htimes : ∀ a ∈ trace (stepMgr .default) twoFinds (outageOverGap.take 4),
      200000 ≤ serverTime a ∧ serverTime a ≤ 230000 := by decide +kernel
  refine windows_unpark_once .default _ (outageOverGap.take 4) 0 (by decide +kernel)
    (by decide +kernel) ?_
  intro before a between b after hts _ _ _ _ _ x hax hxb
  change trace (stepMgr .default) twoFinds (outageOverGap.take 4) = _ at hts
  have ha := htimes a (by rw [hts]; simp)
  have hb := htimes b (by rw [hts]; simp)
  unfold InWindow serverMinute
  omega

/-- The step of the new window finds the flag of the old one and leaves the XUNI parked. -/
theorem window_missed :
    let ts := trace (stepMgr .default) twoFinds (outageOverGap ++ [nextWindow])
    ts.Pairwise (fun a b => a.ev.wall .window ≤ b.ev.wall .window) ∧
      (∀ t ∈ ts, t.pre.serverOffsetMs.getD 0 = 0) ∧ ¬ WindowsUnparkOnce .default ts := by
  refine ⟨by decide +kernel, by decide +kernel, fun h => ?_⟩
  have htimes : ∀ a ∈ trace (stepMgr .default) twoFinds outageOverGap,
      Gated a.pre a.ev → serverTime a ≤ 230000 := by decide +kernel
  have hend := h (trace (stepMgr .default) twoFinds outageOverGap)
    ⟨outageOverGap.foldl (stepMgr .default) twoFinds, nextWindow, _⟩ []
    (trace_append _ _ _ _) (by decide +kernel)
  have hunparks := (hend.1 (by decide +kernel) fun a ha hg hsame => ?_).rows
  · exact absurd hunparks (by decide +kernel)
  · have hle := htimes a ha hg
    have hgap : InWindow 1800000 := hsame 1800000 (by omega) (by decide +kernel)
    exact absurd hgap (by decide)

end TreeMiner
