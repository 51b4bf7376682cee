import Mathlib.Data.List.MinMax
import TreeMiner.Journal.Fetch
import TreeMiner.Submit.Parts

/-! What a submit step selects behind its gates. The scan of the drain is Mathlib's
`List.argmin` over the XEN11 rows and a search over the XUNI rows; the two limited
fetches hand it the oldest due rows of each kind. -/

namespace TreeMiner

/-! ## The scan -/

namespace DrainScheduler

variable {trend : DifficultyTrend} {windowOpen : Bool}

/-- What the scan compares: the memory cost while the difficulty rises, else nothing. -/
def urgency (trend : DifficultyTrend) (r : FindRecord) : Nat :=
  if trend = .rising then r.payload.memoryCost.toNat else 0

theorem urgency_lt_iff {r best : FindRecord} :
    (trend = .rising ∧ r.payload.memoryCost < best.payload.memoryCost) ↔
      urgency trend r < urgency trend best := by
  unfold urgency
  by_cases h : trend = .rising
  · simp [h, UInt32.lt_iff_toNat_lt]
  · simp [h]

/-- The first slot of the scan is a search. -/
theorem scan_fst (rs : List FindRecord) (acc : Option FindRecord × Option FindRecord) :
    (scan trend windowOpen acc rs).1 =
      acc.1.or (if windowOpen then rs.find? fun r => decide (r.payload.kind = .xuni) else none) := by
  induction rs generalizing acc with
  | nil => simp [scan]
  | cons a rs ih =>
    obtain ⟨x, b⟩ := acc
    unfold scan
    by_cases hk : a.payload.kind = .xuni
    · rw [if_pos hk, ih, List.find?_cons_of_pos (by simp [hk])]
      cases windowOpen <;> cases x <;> rfl
    · rw [if_neg hk, List.find?_cons_of_neg (by simp [hk])]
      cases b with
      | none => exact ih _
      | some best => exact ih _

/-- The second slot keeps the first of the least. -/
theorem scan_snd (rs : List FindRecord) (acc : Option FindRecord × Option FindRecord) :
    (scan trend windowOpen acc rs).2 =
      (rs.filter fun r => decide (r.payload.kind ≠ .xuni)).foldl
        (List.argAux fun b c => urgency trend b < urgency trend c) acc.2 := by
  induction rs generalizing acc with
  | nil => rfl
  | cons a rs ih =>
    obtain ⟨x, b⟩ := acc
    unfold scan
    by_cases hk : a.payload.kind = .xuni
    · rw [if_pos hk, ih, List.filter_cons_of_neg (by simp [hk])]
    · rw [if_neg hk, List.filter_cons_of_pos (by simp [hk]), List.foldl_cons]
      cases b with
      | none => exact ih _
      | some best =>
        rw [ih]
        congr 1
        simp only [List.argAux, urgency_lt_iff]

/-- The choice from XEN11 rows followed by XUNI rows. -/
theorem selectNext_append (s : DrainScheduler) {xen11 xuni : List FindRecord}
    {window : XuniWindowState} (hx : ∀ r ∈ xen11, r.payload.kind = .xen11)
    (hu : ∀ r ∈ xuni, r.payload.kind = .xuni) (hopen : window.isOpen = false → xuni = []) :
    s.selectNext (xen11 ++ xuni) trend window =
      match xuni.head? with
      | some x =>
        if window.msUntilClose ≤ s.cfg.xuniPreemptWindowMs then some x
        else (xen11.argmin (urgency trend)).or (some x)
      | none => xen11.argmin (urgency trend) := by
  have hxuni : (scan trend window.isOpen (none, none) (xen11 ++ xuni)).1 = xuni.head? := by
    have hnone : xen11.find? (fun r => decide (r.payload.kind = .xuni)) = none := by
      rw [List.find?_eq_none]
      intro r hr
      simp [hx r hr]
    have hhead : xuni.find? (fun r => decide (r.payload.kind = .xuni)) = xuni.head? := by
      cases xuni with
      | nil => rfl
      | cons a l => exact List.find?_cons_of_pos (by simp [hu a (by simp)])
    rw [scan_fst, List.find?_append, hnone, hhead]
    cases hw : window.isOpen with
    | true => rfl
    | false =>
      rw [hopen hw]
      rfl
  have hxen11 : (scan trend window.isOpen (none, none) (xen11 ++ xuni)).2 =
      xen11.argmin (urgency trend) := by
    have hall : xen11.filter (fun r => decide (r.payload.kind ≠ .xuni)) = xen11 :=
      List.filter_eq_self.2 fun r hr => by simp [hx r hr]
    have hno : xuni.filter (fun r => decide (r.payload.kind ≠ .xuni)) = [] :=
      List.filter_eq_nil_iff.2 fun r hr => by simp [hu r hr]
    rw [scan_snd, List.filter_append, hall, hno, List.append_nil]
    rfl
  show (match (scan trend window.isOpen (none, none) (xen11 ++ xuni)).1 with
    | some x =>
      if window.msUntilClose ≤ s.cfg.xuniPreemptWindowMs then some x
      else (scan trend window.isOpen (none, none) (xen11 ++ xuni)).2.or (some x)
    | none => (scan trend window.isOpen (none, none) (xen11 ++ xuni)).2) = _
  rw [hxuni, hxen11]

end DrainScheduler

/-! ## The fetched rows -/

/-- The row of a kind of rows that was journaled first. -/
def Oldest (S : FindRecord → Prop) (r : FindRecord) : Prop := S r ∧ ∀ q, S q → r.id ≤ q.id

/-- The row that goes first: the oldest, or while the difficulty rises the one of least memory
cost, the oldest on ties. -/
def Preferred (trend : DifficultyTrend) (S : FindRecord → Prop) (r : FindRecord) : Prop :=
  S r ∧ ∀ q, S q →
    if trend = .rising then
      r.payload.memoryCost < q.payload.memoryCost ∨
        r.payload.memoryCost = q.payload.memoryCost ∧ r.id ≤ q.id
    else r.id ≤ q.id

namespace Finds

/-- A pending row of the kind whose next attempt has come. -/
def Due (t : Finds) (kind : FindKind) (nowIso : String) (r : FindRecord) : Prop :=
  r ∈ t.rows ∧ due .pending (some kind) nowIso r = true

/-- One of the `limit` oldest due rows of the kind. -/
def AmongOldest (t : Finds) (kind : FindKind) (nowIso : String) (limit : Nat) (r : FindRecord) :
    Prop :=
  t.Due kind nowIso r ∧
    (t.rows.filter fun q => due .pending (some kind) nowIso q && decide (q.id < r.id)).length < limit

variable {t : Finds} {kind : FindKind} {nowIso : String} {limit : Nat} {r : FindRecord}

theorem Due.kind_eq (h : t.Due kind nowIso r) : r.payload.kind = kind := by
  have hdue := h.2
  unfold due at hdue
  simp only [Bool.and_eq_true, decide_eq_true_eq] at hdue
  exact hdue.1.2

theorem mem_fetchEligibleOfKind :
    r ∈ t.fetchEligibleOfKind kind nowIso limit ↔ t.AmongOldest kind nowIso limit r :=
  mem_fetchByStatus_iff

theorem fetchEligibleOfKind_sorted :
    (t.fetchEligibleOfKind kind nowIso limit).Pairwise fun x y => x.id < y.id := by
  have hrows : (t.rows.filter (due .pending (some kind) nowIso)).Pairwise fun x y => x.id < y.id :=
    t.ids.filter _
  exact hrows.sublist (List.take_sublist _ _)

/-- A limit of one row is enough to see that a row is due. -/
theorem fetchEligibleOfKind_eq_nil (h : 1 ≤ limit) :
    t.fetchEligibleOfKind kind nowIso limit = [] ↔ ∀ r, ¬ t.Due kind nowIso r := by
  have hne : limit ≠ 0 := by omega
  unfold fetchEligibleOfKind
  rw [fetchByStatus_eq, List.take_eq_nil_iff, or_iff_right hne, List.filter_eq_nil_iff]
  constructor
  · intro hnone r hr
    exact hnone r hr.1 hr.2
  · intro hnone r hr hdue
    exact hnone r ⟨hr, hdue⟩

theorem fetchEligibleOfKind_head (h : (t.fetchEligibleOfKind kind nowIso limit).head? = some r) :
    Oldest (t.Due kind nowIso) r := by
  have hne : limit ≠ 0 := by
    rintro rfl
    simp [fetchEligibleOfKind, fetchByStatus_eq] at h
  unfold fetchEligibleOfKind at h
  rw [fetchByStatus_eq, List.head?_take, if_neg hne] at h
  have hsorted : (t.rows.filter (due .pending (some kind) nowIso)).Pairwise
      fun x y => x.id < y.id := t.ids.filter _
  obtain ⟨l, hl⟩ := List.head?_eq_some_iff.1 h
  have hmem : r ∈ t.rows.filter (due .pending (some kind) nowIso) := by simp [hl]
  refine ⟨List.mem_filter.1 hmem, ?_⟩
  intro q hq
  have hq' : q ∈ r :: l := by
    rw [← hl]
    exact List.mem_filter.2 hq
  rw [hl] at hsorted
  rcases List.mem_cons.1 hq' with rfl | hmem'
  · exact le_rfl
  · exact ((List.pairwise_cons.1 hsorted).1 q hmem').le

/-- In a list by growing ids, the smaller index has the smaller id. -/
theorem id_le_of_idxOf_le {l : List FindRecord} {x y : FindRecord}
    (h : l.Pairwise fun a b => a.id < b.id) (hx : x ∈ l) (hy : y ∈ l)
    (hle : l.idxOf x ≤ l.idxOf y) : x.id ≤ y.id := by
  have hxl := List.idxOf_lt_length_iff.2 hx
  have hyl := List.idxOf_lt_length_iff.2 hy
  have hxe : l[l.idxOf x] = x := List.getElem_idxOf hxl
  have hye : l[l.idxOf y] = y := List.getElem_idxOf hyl
  rcases hle.lt_or_eq with hlt | heq
  · have := List.pairwise_iff_getElem.1 h _ _ hxl hyl hlt
    rw [hxe, hye] at this
    exact this.le
  · have : x = y := by
      rw [← hxe, ← hye]
      simp only [heq]
    rw [this]

theorem fetchEligibleOfKind_argmin {trend : DifficultyTrend}
    (h : (t.fetchEligibleOfKind kind nowIso limit).argmin (DrainScheduler.urgency trend) = some r) :
    Preferred trend (t.AmongOldest kind nowIso limit) r := by
  obtain ⟨hmem, hmin, hfirst⟩ := List.mem_argmin_iff.1 h
  refine ⟨mem_fetchEligibleOfKind.1 hmem, ?_⟩
  intro q hq
  have hq' := mem_fetchEligibleOfKind.2 hq
  have hle := hmin q hq'
  have hid : DrainScheduler.urgency trend q ≤ DrainScheduler.urgency trend r → r.id ≤ q.id :=
    fun hback => id_le_of_idxOf_le fetchEligibleOfKind_sorted hmem hq' (hfirst q hq' hback)
  unfold DrainScheduler.urgency at hle hid
  split_ifs with htrend
  · rw [if_pos htrend, if_pos htrend] at hle hid
    rcases hle.lt_or_eq with hlt | heq
    · exact Or.inl (UInt32.lt_iff_toNat_lt.2 hlt)
    · exact Or.inr ⟨UInt32.toNat_inj.1 heq, hid heq.ge⟩
  · rw [if_neg htrend, if_neg htrend] at hid
    exact hid le_rfl

end Finds

/-! ## The law of selection -/

/-- What a step may select from the table when the window and the trend are as read. -/
structure Selects (cfg : DrainConfig) (limit : Nat) (window : XuniWindowState)
    (trend : DifficultyTrend) (nowIso : String) (t : Finds) (selected : Option FindRecord) :
    Prop where
  no_starvation : (∃ r, t.Due .xen11 nowIso r) ∨
    window.isOpen = true ∧ (∃ r, t.Due .xuni nowIso r) → ∃ r, selected = some r
  window_open : ∀ r, selected = some r → r.payload.kind = .xuni → window.isOpen = true
  preempts : window.isOpen = true → window.msUntilClose ≤ cfg.xuniPreemptWindowMs →
    (∃ x, t.Due .xuni nowIso x) → ∃ r, selected = some r ∧ Oldest (t.Due .xuni nowIso) r
  xen11_first : ¬ (window.isOpen = true ∧ window.msUntilClose ≤ cfg.xuniPreemptWindowMs ∧
      ∃ x, t.Due .xuni nowIso x) → (∃ x, t.Due .xen11 nowIso x) →
    ∃ r, selected = some r ∧ Preferred trend (t.AmongOldest .xen11 nowIso limit) r
  xuni_last : (¬ ∃ x, t.Due .xen11 nowIso x) → ∀ r, selected = some r →
    Oldest (t.Due .xuni nowIso) r

namespace SubmissionManager

variable {cfg : Config} {env : StepEnv} {m : SubmissionManager} {window : XuniWindowState}

/-- The XUNI rows a selection fetches. -/
def fetchedXuni (cfg : Config) (env : StepEnv) (window : XuniWindowState)
    (m : SubmissionManager) : List FindRecord :=
  if window.isOpen then
    m.journal.finds.fetchEligibleOfKind .xuni (isoUtc (env.wall .nowIso)) cfg.fetchLimit else []

theorem selectRecord_eq : (selectRecord cfg env window m).1 =
    let xen11 := m.journal.finds.fetchEligibleOfKind .xen11 (isoUtc (env.wall .nowIso))
      cfg.fetchLimit
    match (fetchedXuni cfg env window m).head? with
    | some x =>
      if window.msUntilClose ≤ m.scheduler.cfg.xuniPreemptWindowMs then some x
      else (xen11.argmin (DrainScheduler.urgency m.difficultyTrend)).or (some x)
    | none => xen11.argmin (DrainScheduler.urgency m.difficultyTrend) := by
  have hx : ∀ r ∈ m.journal.finds.fetchEligibleOfKind .xen11 (isoUtc (env.wall .nowIso))
      cfg.fetchLimit, r.payload.kind = .xen11 :=
    fun r hr => (Finds.mem_fetchEligibleOfKind.1 hr).1.kind_eq
  have hu : ∀ r ∈ fetchedXuni cfg env window m, r.payload.kind = .xuni := by
    intro r hr
    unfold fetchedXuni at hr
    split_ifs at hr
    · exact (Finds.mem_fetchEligibleOfKind.1 hr).1.kind_eq
    · cases hr
  have hopen : window.isOpen = false → fetchedXuni cfg env window m = [] := by
    intro h
    simp [fetchedXuni, h]
  have hselect := @DrainScheduler.selectNext_append m.difficultyTrend m.scheduler _ _ window hx hu
    hopen
  dsimp only
  rw [← hselect]
  unfold selectRecord
  dsimp only
  rw [show (if window.isOpen = true then m.journal.finds.fetchEligibleOfKind .xuni
    (isoUtc (env.wall .nowIso)) cfg.fetchLimit else []) = fetchedXuni cfg env window m from rfl]
  by_cases hempty : (m.journal.finds.fetchEligibleOfKind .xen11 (isoUtc (env.wall .nowIso))
      cfg.fetchLimit ++ fetchedXuni cfg env window m).isEmpty = true
  · rw [if_pos hempty, List.isEmpty_iff.1 hempty]
    rfl
  · rw [if_neg hempty]
    rfl

theorem fetchedXuni_head {x : FindRecord} (h : (fetchedXuni cfg env window m).head? = some x) :
    window.isOpen = true ∧
      Oldest (m.journal.finds.Due .xuni (isoUtc (env.wall .nowIso))) x := by
  unfold fetchedXuni at h
  split_ifs at h with hw
  · exact ⟨hw, Finds.fetchEligibleOfKind_head h⟩
  · cases h

theorem fetchedXuni_none (hlimit : 1 ≤ cfg.fetchLimit) (hw : window.isOpen = true)
    (h : (fetchedXuni cfg env window m).head? = none) :
    ∀ r, ¬ m.journal.finds.Due .xuni (isoUtc (env.wall .nowIso)) r := by
  unfold fetchedXuni at h
  rw [if_pos hw] at h
  exact (Finds.fetchEligibleOfKind_eq_nil hlimit).1 (List.head?_eq_none_iff.1 h)

/-- With room for one row in each fetch, a selection keeps the law. -/
theorem selectRecord_selects (h : 1 ≤ cfg.fetchLimit) :
    Selects m.scheduler.cfg cfg.fetchLimit window m.difficultyTrend (isoUtc (env.wall .nowIso))
      m.journal.finds (selectRecord cfg env window m).1 := by
  have hsel := @selectRecord_eq cfg env m window
  dsimp only at hsel
  rw [hsel]
  rcases hpick : (m.journal.finds.fetchEligibleOfKind .xen11 (isoUtc (env.wall .nowIso))
      cfg.fetchLimit).argmin (DrainScheduler.urgency m.difficultyTrend) with _ | r
  · -- no XEN11 row is due
    have hnone := (Finds.fetchEligibleOfKind_eq_nil h).1 (List.argmin_eq_none.1 hpick)
    rcases hhead : (fetchedXuni cfg env window m).head? with _ | x
    · have hno : ¬ (window.isOpen = true ∧ ∃ r, m.journal.finds.Due .xuni
          (isoUtc (env.wall .nowIso)) r) := by
        rintro ⟨hw, r, hr⟩
        exact fetchedXuni_none h hw hhead r hr
      refine ⟨?_, fun r hr => (by cases hr), ?_, ?_, fun _ r hr => (by cases hr)⟩
      · rintro (⟨r, hr⟩ | hxuni)
        · exact absurd hr (hnone r)
        · exact absurd hxuni hno
      · intro hw _ hdue
        exact absurd ⟨hw, hdue⟩ hno
      · rintro _ ⟨r, hr⟩
        exact absurd hr (hnone r)
    · obtain ⟨hw, hold⟩ := fetchedXuni_head hhead
      have hx : (if window.msUntilClose ≤ m.scheduler.cfg.xuniPreemptWindowMs then some x
          else Option.or none (some x)) = some x := by
        split_ifs <;> rfl
      dsimp only
      rw [hx]
      refine ⟨fun _ => ⟨x, rfl⟩, fun _ _ _ => hw, fun _ _ _ => ⟨x, rfl, hold⟩, ?_, ?_⟩
      · rintro _ ⟨r, hr⟩
        exact absurd hr (hnone r)
      · rintro _ r hr
        cases hr
        exact hold
  · have hpref := Finds.fetchEligibleOfKind_argmin hpick
    have hdue : ∃ q, m.journal.finds.Due .xen11 (isoUtc (env.wall .nowIso)) q := ⟨r, hpref.1.1⟩
    have hkind : r.payload.kind ≠ .xuni := by simp [hpref.1.1.kind_eq]
    rcases hhead : (fetchedXuni cfg env window m).head? with _ | x
    · refine ⟨fun _ => ⟨r, rfl⟩, ?_, ?_, fun _ _ => ⟨r, rfl, hpref⟩, ?_⟩
      · rintro q hq hxuni
        cases hq
        exact absurd hxuni hkind
      · rintro hw _ ⟨q, hq⟩
        exact absurd hq (fetchedXuni_none h hw hhead q)
      · intro hno
        exact absurd hdue hno
    · obtain ⟨hw, hold⟩ := fetchedXuni_head hhead
      by_cases hclose : window.msUntilClose ≤ m.scheduler.cfg.xuniPreemptWindowMs
      · dsimp only
        rw [if_pos hclose]
        refine ⟨fun _ => ⟨x, rfl⟩, fun _ _ _ => hw, fun _ _ _ => ⟨x, rfl, hold⟩, ?_, ?_⟩
        · intro hnot
          exact absurd ⟨hw, hclose, x, hold.1⟩ hnot
        · intro hno
          exact absurd hdue hno
      · dsimp only
        rw [if_neg hclose]
        refine ⟨fun _ => ⟨r, rfl⟩, ?_, ?_, fun _ _ => ⟨r, rfl, hpref⟩, ?_⟩
        · rintro q hq hxuni
          cases hq
          exact absurd hxuni hkind
        · intro _ hle
          exact absurd hle hclose
        · intro hno
          exact absurd hdue hno

/-- Behind the pacing and the quiesce gate a submit step selects by the law, from the journal
as the window bookkeeping left it. It ends idle if and only if it has selected nothing;
otherwise the row it has selected goes out, or the breaker holds it back. -/
theorem submit_selection {ctx : StepCtx} (hlimit : 1 ≤ cfg.fetchLimit)
    (hpaced : ctx.mgr.nextSubmitAllowedMs ≤ env.mono .gate)
    (hquiet : ctx.mgr.quiesceUntilMs ≤ env.mono .gate) :
    let window := (ctx.mgr.trackWindow cfg (env.wall .window)).1
    let m := (ctx.mgr.trackWindow cfg (env.wall .window)).2
    let selected := (selectRecord cfg env window m).1
    Selects m.scheduler.cfg cfg.fetchLimit window m.difficultyTrend (isoUtc (env.wall .nowIso))
        m.journal.finds selected ∧
      ((submitPost cfg env ctx).1 = .error .idle ↔ selected = none) ∧
      ∀ r, selected = some r → (submitPost cfg env ctx).1 = .error .breakerBlocked ∨
        ∃ f, (submitPost cfg env ctx).1 = .ok f ∧ f.record = r := by
  dsimp only
  refine ⟨selectRecord_selects hlimit, ?_⟩
  obtain ⟨-, finds, htracked, -⟩ := @trackWindow_spec cfg ctx.mgr (env.wall .window)
  have hquiesce : (ctx.mgr.trackWindow cfg (env.wall .window)).2.quiesceUntilMs ≤
      env.mono .gate := by
    rw [htracked]
    exact hquiet
  unfold submitPost
  rcases hw : ctx.mgr.trackWindow cfg (env.wall .window) with ⟨window, m⟩
  rw [hw] at hquiesce
  rcases hs : selectRecord cfg env window m with ⟨r, m'⟩
  dsimp only
  rw [if_neg (not_lt.2 hpaced), if_neg (not_lt.2 hquiesce), hs]
  cases r with
  | none => simp
  | some r =>
    rcases ha : m'.breaker.tryAdmit with ⟨admitted, b⟩
    cases admitted with
    | false => simp [ha]
    | true => simp [ha]

/-- Two XEN11 rows, and a XUNI row behind them. -/
def mixedKinds : StepCtx :=
  ⟨.new .default (.ofCaptures
    [.sample "a" .xen11 300, .sample "b" .xen11 100, .sample "x" .xuni 100]), [], []⟩

/-- At 01:03:20 the window has 100 seconds left. -/
theorem submit_selection_closing :
    let window := (mixedKinds.mgr.trackWindow .default 3800000).1
    let m := (mixedKinds.mgr.trackWindow .default 3800000).2
    ∃ r, (selectRecord .default (.silent 3800000) window m).1 = some r ∧
      Oldest (m.journal.finds.Due .xuni (isoUtc 3800000)) r := by
  have hlaw := @submit_selection .default (.silent 3800000) mixedKinds (by decide)
    (by decide) (by decide)
  refine hlaw.1.preempts (by decide) (by decide) ?_
  refine ⟨(mixedKinds.mgr.journal.finds.rows[2]?).get (by decide), ?_, ?_⟩
  · decide
  · decide

end SubmissionManager

end TreeMiner
