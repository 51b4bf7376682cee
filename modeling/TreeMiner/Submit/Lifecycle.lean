import TreeMiner.Submit.Interleave

/-! The life cycle of a find, over runs of all threads that touch the journal. -/

namespace TreeMiner

open Lib SubmissionManager

/-- The moves of a find of one kind. -/
inductive Move (kind : FindKind) : FindStatus → FindStatus → Prop
  | retried : Move kind .pending .pending
  | accepted : Move kind .pending .acceptedUnconfirmed
  | acked : Move kind .pending .acked
  | parked : Move kind .pending .parkedDifficulty
  | parkedXuni (h : kind = .xuni) : Move kind .pending .parkedXuniWindow
  | quarantined : Move kind .pending .quarantined
  | rejected : Move kind .pending .permanentlyInvalid
  | unproven : Move kind .acceptedUnconfirmed .acceptedUnconfirmed
  | confirmed : Move kind .acceptedUnconfirmed .acked
  | absent : Move kind .acceptedUnconfirmed .pending
  | unparked : Move kind .parkedDifficulty .pending
  | window : Move kind .parkedXuniWindow .pending
  | exhausted : Move kind .parkedXuniWindow .dead

/-- One row before and after: the same find, untouched or moved along the life cycle. -/
structure Lives (r r' : FindRecord) : Prop where
  id : r'.id = r.id
  payload : r'.payload = r.payload
  moved : r' = r ∨ Move r.payload.kind r.status r'.status

/-- One write to the journal: every row lives on in its place, and rows may be created. -/
def LifeStep (t t' : Finds) : Prop :=
  ∃ kept new, t'.rows = kept ++ new ∧ List.Forall₂ Lives t.rows kept ∧
    ∀ r ∈ new, r.status = .pending ∨ r.status = .permanentlyInvalid

def NoSubmitting (t : Finds) : Prop := ∀ r ∈ t.rows, r.status ≠ .submitting

theorem Lives.refl (r : FindRecord) : Lives r r := ⟨rfl, rfl, Or.inl rfl⟩

theorem Move.ne_submitting {kind : FindKind} {a b : FindStatus} (h : Move kind a b) :
    b ≠ .submitting := by
  cases h <;> simp

/-- A find in a final state or in quarantine is never written again. -/
theorem Lives.absorbed {r r' : FindRecord} (h : Lives r r')
    (hs : r.status.isTerminal = true ∨ r.status = .quarantined) : r' = r := by
  rcases h.moved with h | h
  · exact h
  · generalize r.status = a at h hs
    generalize r'.status = b at h
    cases h <;> simp [FindStatus.isTerminal] at hs

theorem Classified.move {kind : FindKind} {c : Classification} (h : Classified kind c) :
    Move kind .pending c.nextStatus := by
  cases h with
  | pending => exact .retried
  | accepted => exact .accepted
  | invalid => exact .rejected
  | parkedXuni h => exact .parkedXuni h
  | parkedDifficulty => exact .parked
  | quarantined => exact .quarantined

namespace LifeStep

variable {t t' : Finds}

theorem of_map {f : FindRecord → FindRecord} (h : t'.rows = t.rows.map f)
    (hf : ∀ r ∈ t.rows, Lives r (f r)) : LifeStep t t' := by
  refine ⟨t.rows.map f, [], by rw [h, List.append_nil], ?_, by simp⟩
  rw [List.forall₂_map_right_iff]
  exact List.forall₂_same.2 hf

theorem refl : LifeStep t t := of_map (f := id) (by simp) fun r _ => .refl r

theorem noSubmitting (h : LifeStep t t') (hn : NoSubmitting t) : NoSubmitting t' := by
  obtain ⟨kept, new, hrows, hkept, hnew⟩ := h
  intro r hr
  rw [hrows] at hr
  rcases List.mem_append.1 hr with hr | hr
  · obtain ⟨i, hi, rfl⟩ := List.getElem_of_mem hr
    have hlen := hkept.length_eq
    have hlives := hkept.get (by omega) hi
    rcases hlives.moved with h | h
    · rw [List.get_eq_getElem, List.get_eq_getElem] at h
      rw [h]
      exact hn _ (List.getElem_mem _)
    · exact h.ne_submitting
  · rcases hnew r hr with h | h <;> simp [h]

end LifeStep

/-! ## The writes of each part -/

namespace Finds

variable {t : Finds}

theorem append_lifeStep (payload : FoundPayload) : LifeStep t (t.append payload).2 := by
  unfold append
  split
  · exact .refl
  · refine ⟨t.rows, [t.newRecord payload], rfl, List.forall₂_same.2 fun r _ => .refl r, ?_⟩
    intro r hr
    rw [List.mem_singleton.1 hr]
    unfold newRecord initialStatus
    dsimp only
    split_ifs <;> simp

theorem windowed_lives (maxWindows : Int) (r : FindRecord) : Lives r (windowed maxWindows r) := by
  unfold windowed exhausted
  split_ifs with h
  · exact ⟨rfl, rfl, Or.inr (h.1 ▸ .exhausted)⟩
  · unfold unparkedXuni
    split_ifs with hp
    · exact ⟨rfl, rfl, Or.inr (hp ▸ .window)⟩
    · exact .refl r

theorem recover_lifeStep (hn : NoSubmitting t) : LifeStep t t.recoverOnStartup := by
  refine .of_map rfl fun r hr => ?_
  rw [recovered, if_neg (hn r hr)]
  exact .refl r

/-- Rows un-parked by any number of observations. -/
def Unparked (r r' : FindRecord) : Prop :=
  r' = r ∨ (r.status = .parkedDifficulty ∧ r' = { r with status := .pending, nextAttemptAt := none })

theorem Unparked.lives {r r' : FindRecord} (h : Unparked r r') : Lives r r' := by
  rcases h with rfl | ⟨hs, rfl⟩
  · exact .refl r'
  · exact ⟨rfl, rfl, Or.inr (hs ▸ .unparked)⟩

theorem Unparked.trans {a b c : FindRecord} (h : Unparked a b) (h' : Unparked b c) :
    Unparked a c := by
  rcases h with rfl | ⟨hs, rfl⟩
  · exact h'
  · rcases h' with rfl | ⟨hs', -⟩
    · exact Or.inr ⟨hs, rfl⟩
    · cases hs'

theorem unparkedAt_unparked (d : UInt32) (r : FindRecord) : Unparked r (unparkedAt d r) := by
  unfold unparkedAt
  split_ifs with h
  · exact Or.inr ⟨h.1, rfl⟩
  · exact Or.inl rfl

end Finds

namespace SubmissionManager

variable {cfg : Config} {env : StepEnv} {m m' : SubmissionManager} {ctx ctx' : StepCtx}

theorem Observed.unparks {d : UInt32} (h : Observed d m m') :
    ∃ g, m'.journal.finds.rows = m.journal.finds.rows.map g ∧ ∀ r, Finds.Unparked r (g r) := by
  rw [h.finds]
  split_ifs
  · exact ⟨_, rfl, Finds.unparkedAt_unparked d⟩
  · exact ⟨id, by simp, fun r => Or.inl rfl⟩

theorem Probed.unparks (h : Probed cfg env ctx ctx') :
    ∃ g, ctx'.mgr.journal.finds.rows = ctx.mgr.journal.finds.rows.map g ∧
      ∀ r, Finds.Unparked r (g r) := by
  induction h with
  | refl => exact ⟨id, by simp, fun r => Or.inl rfl⟩
  | date o _ ih => exact ih
  | note body field d _ _ _ _ ih =>
    obtain ⟨g, hg, hu⟩ := ih
    obtain ⟨g0, hg0, hu0⟩ := (noteDifficulty_spec d _).1.unparks
    exact ⟨g ∘ g0, by rw [hg, hg0, List.map_map], fun r => (hu0 r).trans (hu _)⟩

theorem Observed.lifeStep {d : UInt32} (h : Observed d m m') :
    LifeStep m.journal.finds m'.journal.finds := by
  obtain ⟨g, hg, hu⟩ := h.unparks
  exact .of_map hg fun r _ => (hu r).lives

/-- An attempt on a row moves that row as its status says. -/
theorem attempt_lifeStep {t t' : Finds} {rec : FindRecord} {c : Classification}
    {http : Option Int} {body : String} {next : Option String} {now : String}
    (h : t'.rows = t.rows.map (Finds.attemptAt rec.id c http body next now)) (hrec : rec ∈ t.rows)
    (hmove : Move rec.payload.kind rec.status c.nextStatus) : LifeStep t t' := by
  refine .of_map h fun r hr => ?_
  unfold Finds.attemptAt
  split_ifs with hid
  · rw [Finds.eq_of_id hr hrec hid]
    exact ⟨rfl, rfl, Or.inr hmove⟩
  · exact .refl r

theorem Settled.move {f : Inflight} {c : Classification} {kind : FindKind}
    (hc : Classified kind f.c) (h : Settled env f c) : Move kind .pending c.nextStatus := by
  cases h with
  | asked => exact hc.move
  | acked c hn h200 hbody hs => rw [hs]; exact .acked
  | absent c hn hs => rw [hs]; exact .retried
  | unproven c hn hs => rw [hs]; exact hc.move

end SubmissionManager

/-! ## Runs -/

theorem Part.lifeStep {cfg : Config} {env : StepEnv} {s s' : Machine}
    (hheld : s.phase.Held s.finds) (h : Part cfg env s s') : LifeStep s.finds s'.finds := by
  cases h with
  | quiet hj hd hp hn => rw [hj]; exact .refl
  | probe c c' hc hp hj hd hphase =>
    obtain ⟨g, hg, hu⟩ := hp.unparks
    rw [hc.journal] at hg
    rw [hj]
    exact .of_map hg fun r _ => (hu r).lives
  | post hj hd hphase =>
    rcases hj with hj | hj
    · rw [hj]; exact .refl
    · rw [hj]
      exact .of_map (Finds.unparkXuniForWindow_rows _) fun r _ => Finds.windowed_lives _ r
  | hint f hphase hphase' h =>
    rcases h with ⟨-, h⟩ | ⟨d, -, h⟩
    · unfold Machine.finds
      rw [h]
      exact .refl
    · exact h.lifeStep
  | record f polled hphase hphase' h =>
    rw [hphase] at hheld
    obtain ⟨hmem, hpending, hc⟩ := hheld
    obtain ⟨http, body, next, now, hrows⟩ := h.rows
    refine attempt_lifeStep hrows hmem ?_
    rw [hpending]
    exact (settle_settled f).move hc
  | retry i rec rest hphase hphase' h =>
    rw [hphase] at hheld
    obtain ⟨hmem, hs⟩ := hheld.1 rec (by simp)
    obtain ⟨c, http, body, next, now, hrows, hc⟩ := h.rows
    refine attempt_lifeStep hrows hmem ?_
    rw [hs]
    rcases hc with ⟨hc, -⟩ | hc | hc
    · rw [hc]; exact .confirmed
    · rw [hc]; exact .unproven
    · rw [hc]; exact .absent

/-- Between two parts: no row is stored in process, and the thread holds its rows. -/
structure Journaled (s : Machine) : Prop where
  noSubmitting : NoSubmitting s.finds
  held : s.phase.Held s.finds

theorem Machine.turn_lifeStep {cfg : Config} {s : Machine} (t : Turn) (h : Journaled s) :
    LifeStep s.finds (s.turn cfg t).finds := by
  cases t with
  | append payload => exact Finds.append_lifeStep payload
  | observe d mono => exact (observeDifficulty_spec d mono).lifeStep
  | drain env => exact (drain_part h.held).lifeStep h.held
  | restart => exact Finds.recover_lifeStep h.noSubmitting

theorem Machine.turn_journaled {cfg : Config} {s : Machine} (t : Turn) (h : Journaled s) :
    Journaled (s.turn cfg t) :=
  ⟨(turn_lifeStep t h).noSubmitting h.noSubmitting, turn_held t h.held⟩

/-- In every run of captures, difficulty readings, parts of the drain thread with any
answers, and restarts, from the empty journal: every write creates rows pending or
permanently invalid, or moves rows along the life cycle; no row is stored as submitting,
and no two rows share a key. -/
theorem find_life_cycle (cfg : Config) (turns : List Turn) :
    let ts := trace (Machine.turn cfg) (.start cfg .empty) turns
    (∀ t ∈ ts, LifeStep t.pre.finds t.post.finds) ∧
      ∀ s ∈ visited (.start cfg .empty) ts, NoSubmitting s.finds ∧
        s.finds.rows.Pairwise fun a b => a.payload.key ≠ b.payload.key := by
  intro ts
  have hrun := Run.trace (Machine.turn cfg) (.start cfg .empty) turns
  have hstart : Journaled (.start cfg .empty) := ⟨fun r hr => absurd hr List.not_mem_nil, trivial⟩
  obtain ⟨hv, hp, -⟩ := hrun.inv (I := Journaled)
    (fun s t s' hs h => by rw [hs]; exact Machine.turn_journaled t h) hstart
  refine ⟨fun t ht => ?_, fun s hs => ⟨(hv s hs).noSubmitting, s.finds.keys⟩⟩
  rw [hrun.step_of_mem ht]
  exact Machine.turn_lifeStep t.ev (hp t ht)

/-- A find that is final or quarantined stays in the journal as it is, whatever follows. -/
theorem absorbed_forever {cfg : Config} {s u : Machine} {ts : List (Trans Machine Turn)}
    (hrun : Run (fun s t s' => s' = s.turn cfg t) s ts u) (h : Journaled s) {r : FindRecord}
    (hr : r ∈ s.finds.rows) (hs : r.status.isTerminal = true ∨ r.status = .quarantined) :
    r ∈ u.finds.rows := by
  induction hrun with
  | nil => exact hr
  | @cons s s' u t ts hstep _ ih =>
    subst hstep
    refine ih (Machine.turn_journaled t h) ?_
    obtain ⟨kept, new, hrows, hkept, -⟩ := @Machine.turn_lifeStep cfg _ t h
    rw [hrows]
    obtain ⟨i, hi, rfl⟩ := List.getElem_of_mem hr
    have hlen := hkept.length_eq
    have hlives := hkept.get hi (by omega)
    rw [List.get_eq_getElem, List.get_eq_getElem] at hlives
    rw [← hlives.absorbed hs]
    exact List.mem_append_left _ (List.getElem_mem _)

end TreeMiner
