import Mathlib.Data.List.Nodup
import Mathlib.Logic.Relation
import TreeMiner.Lib.Run
import TreeMiner.Submit.Parts

/-! The drain thread beside the threads that share its journal. A scheduling step is cut
into the parts between which another thread can come: the POST, the hint, the record of
the attempt, the fetch of the rows awaiting confirmation and each of their lookups. -/

namespace TreeMiner

open Lib SubmissionManager

/-- Where the drain thread stands. -/
inductive Phase
  | idle
  | posted (f : Inflight)
  /-- `polled`, which the code does not keep, is the poller's last reading since the hint -/
  | hinted (f : Inflight) (polled : Option UInt32)
  | drained
  | confirming (i : Nat) (batch : List FindRecord)

/-- A submission is between its POST and the record of its attempt. -/
def Phase.InFlight : Phase → Prop
  | .posted _ | .hinted _ _ => True
  | _ => False

instance : DecidablePred Phase.InFlight
  | .posted _ | .hinted _ _ => isTrue trivial
  | .idle | .drained | .confirming _ _ => isFalse id

structure Machine where
  ctx : StepCtx
  phase : Phase

/-- One atomic part of one thread, or a restart of the process. -/
inductive Turn
  | append (payload : FoundPayload)
  | observe (difficulty : UInt32) (mono : Int)
  | drain (env : StepEnv)
  | restart

namespace Machine

def start (cfg : Config) (journal : Journal) : Machine := ⟨⟨.new cfg journal, [], []⟩, .idle⟩

def mgr (s : Machine) : SubmissionManager := s.ctx.mgr

def finds (s : Machine) : Finds := s.ctx.mgr.journal.finds

def halt (ctx : StepCtx) : Machine :=
  ⟨⟨{ ctx.mgr with fatal := true }, [], ctx.trace⟩, .idle⟩

/-- A step up to its POST; a step that probes is one part. -/
def begin (cfg : Config) (env : StepEnv) (m : SubmissionManager) : Machine :=
  if m.fatal then ⟨⟨m, [], []⟩, .idle⟩
  else
    let ctx := updateMargin cfg env ⟨m, [], []⟩
    if ctx.mgr.breaker.state = .opened then ⟨(probeStep cfg env ctx).2, .idle⟩
    else
      match submitPost cfg env ctx with
      | (.error _, ctx) => ⟨ctx, .drained⟩
      | (.ok f, ctx) => ⟨ctx, .posted f⟩

/-- The drain thread's next part. -/
def drain (cfg : Config) (env : StepEnv) (s : Machine) : Machine :=
  match s.phase with
  | .idle => begin cfg env s.mgr
  | .posted f => ⟨submitHint cfg env f s.ctx, .hinted f none⟩
  | .hinted f _ =>
    match submitRecord cfg env f s.ctx with
    | (.ok _, ctx) => ⟨ctx, .drained⟩
    | (.error _, ctx) => halt ctx
  | .drained =>
    if s.mgr.breaker.state = .opened then ⟨s.ctx, .idle⟩
    else ⟨s.ctx, .confirming 0 (confirmBatch cfg env s.mgr)⟩
  | .confirming _ [] => ⟨s.ctx, .idle⟩
  | .confirming i (rec :: rest) =>
    match confirmOne cfg (env.lookups i) rec s.ctx with
    | (.ok (), ctx) =>
      if (env.lookups i).answer.transportOk then ⟨ctx, .confirming (i + 1) rest⟩ else ⟨ctx, .idle⟩
    | (.error _, ctx) => halt ctx

def appended (payload : FoundPayload) (s : Machine) : Machine :=
  { s with ctx := s.ctx.withMgr (s.mgr.setFinds (s.finds.append payload).2) }

/-- The poller's part. -/
def observed (cfg : Config) (difficulty : UInt32) (mono : Int) (s : Machine) : Machine where
  ctx := s.ctx.withMgr (s.mgr.observeDifficulty cfg difficulty mono)
  phase := match s.phase with
    | .hinted f _ => .hinted f (some difficulty)
    | phase => phase

/-- What is left of a process that died anywhere: its journal, recovered. -/
def restarted (cfg : Config) (s : Machine) : Machine :=
  start cfg { s.mgr.journal with finds := s.finds.recoverOnStartup }

def turn (cfg : Config) (s : Machine) : Turn → Machine
  | .append payload => s.appended payload
  | .observe difficulty mono => s.observed cfg difficulty mono
  | .drain env => s.drain cfg env
  | .restart => s.restarted cfg

end Machine

/-! ## A scheduling step is its parts -/

/-- The drain thread's parts with no other thread in between. -/
abbrev Drains (cfg : Config) (env : StepEnv) : Machine → Machine → Prop :=
  Relation.ReflTransGen fun s s' => s' = s.drain cfg env

namespace Machine

variable {cfg : Config} {env : StepEnv}

theorem drains_next {s s' : Machine} (h : Drains cfg env (s.drain cfg env) s') :
    Drains cfg env s s' := .head rfl h

/-- Where the loop of `confirm_step` leaves the thread. -/
def afterLoop : Except JournalError Unit × StepCtx → Machine
  | (.ok (), ctx) => ⟨ctx, .idle⟩
  | (.error _, ctx) => halt ctx

theorem drains_confirmLoop (batch : List FindRecord) : ∀ (i : Nat) (ctx : StepCtx),
    Drains cfg env ⟨ctx, .confirming i batch⟩ (afterLoop (confirmLoop cfg env.lookups i batch ctx)) := by
  induction batch with
  | nil => exact fun i ctx => .single rfl
  | cons rec rest ih =>
    intro i ctx
    apply drains_next
    unfold drain confirmLoop
    dsimp only
    rcases confirmOne cfg (env.lookups i) rec ctx with ⟨r, ctx'⟩
    cases r with
    | error e => exact .refl
    | ok u =>
      dsimp only
      split_ifs
      · exact ih (i + 1) ctx'
      · exact .refl

/-- Where a confirm step or a whole step leaves the thread. -/
def afterStep : Except JournalError StepResult × StepCtx → Machine
  | (.ok _, ctx) => ⟨ctx, .idle⟩
  | (.error _, ctx) => halt ctx

theorem drains_confirmStep (ctx : StepCtx) :
    Drains cfg env ⟨ctx, .drained⟩ (afterStep (confirmStep cfg env ctx)) := by
  apply drains_next
  by_cases hopen : ctx.mgr.breaker.state = .opened
  · rw [show drain cfg env ⟨ctx, .drained⟩ = ⟨ctx, .idle⟩ from if_pos hopen,
      show confirmStep cfg env ctx = (.ok .idle, ctx) from if_pos hopen]
    exact .refl
  have hloop := @drains_confirmLoop cfg env (confirmBatch cfg env ctx.mgr) 0 ctx
  rw [show drain cfg env ⟨ctx, .drained⟩ = ⟨ctx, .confirming 0 (confirmBatch cfg env ctx.mgr)⟩
    from if_neg hopen]
  unfold confirmStep
  rw [if_neg hopen]
  dsimp only
  by_cases hempty : (confirmBatch cfg env ctx.mgr).isEmpty = true
  · rw [if_pos hempty, List.isEmpty_iff.1 hempty]
    exact drains_next .refl
  · rw [if_neg hempty]
    refine hloop.trans ?_
    rcases confirmLoop cfg env.lookups 0 (confirmBatch cfg env ctx.mgr) ctx with ⟨r, ctx'⟩
    cases r <;> exact .refl

/-- Where a submission leaves the thread. -/
def afterRecord : Except JournalError StepResult × StepCtx → Machine
  | (.ok _, ctx) => ⟨ctx, .drained⟩
  | (.error _, ctx) => halt ctx

theorem drains_submitRecord (f : Inflight) (ctx : StepCtx) :
    Drains cfg env ⟨ctx, .posted f⟩
      (afterRecord (submitRecord cfg env f (submitHint cfg env f ctx))) := by
  apply drains_next
  apply drains_next
  unfold drain
  dsimp only
  rcases submitRecord cfg env f (submitHint cfg env f ctx) with ⟨r, ctx'⟩
  cases r <;> exact .refl

theorem drains_runStep (m : SubmissionManager) (hf : ¬ m.fatal = true) :
    Drains cfg env (begin cfg env m) (afterStep (runStep cfg env ⟨m, [], []⟩)) := by
  unfold begin runStep submitStep
  rw [if_neg hf]
  dsimp only
  by_cases hopen : (updateMargin cfg env ⟨m, [], []⟩).mgr.breaker.state = .opened
  · rw [if_pos hopen, if_pos hopen]
    exact .refl
  rw [if_neg hopen, if_neg hopen]
  rcases submitPost cfg env (updateMargin cfg env ⟨m, [], []⟩) with ⟨r, ctx1⟩
  cases r with
  | error e =>
    dsimp only
    refine (drains_confirmStep ctx1).trans ?_
    rcases confirmStep cfg env ctx1 with ⟨rc, ctx2⟩
    cases rc with
    | error _ => exact .refl
    | ok rc => dsimp only; split_ifs <;> exact .refl
  | ok f =>
    dsimp only
    refine (drains_submitRecord f ctx1).trans ?_
    rcases submitRecord cfg env f (submitHint cfg env f ctx1) with ⟨r, ctx2⟩
    cases r with
    | error _ => exact .refl
    | ok r =>
      dsimp only
      refine (drains_confirmStep ctx2).trans ?_
      rcases confirmStep cfg env ctx2 with ⟨rc, ctx3⟩
      cases rc with
      | error _ => exact .refl
      | ok rc => dsimp only; split_ifs <;> exact .refl

/-- A `run_once` is its parts, taken one after the other. -/
theorem drains_runOnce (ctx : StepCtx) :
    Drains cfg env ⟨ctx, .idle⟩ ⟨(runOnce cfg ctx.mgr env).2, .idle⟩ := by
  apply drains_next
  by_cases hf : ctx.mgr.fatal = true
  · rw [show drain cfg env ⟨ctx, .idle⟩ = ⟨⟨ctx.mgr, [], []⟩, .idle⟩ from if_pos hf,
      show runOnce cfg ctx.mgr env = (.idle, ⟨ctx.mgr, [], []⟩) from if_pos hf]
  · refine (drains_runStep ctx.mgr hf).trans ?_
    unfold runOnce
    rw [if_neg hf]
    rcases runStep cfg env ⟨ctx.mgr, [], []⟩ with ⟨r, ctx'⟩
    cases r <;> exact .refl

end Machine

/-! ## The rows a step holds -/

/-- The rows the thread has fetched are still in the journal as it fetched them. -/
def Phase.Held (t : Finds) : Phase → Prop
  | .posted f | .hinted f _ =>
    f.record ∈ t.rows ∧ f.record.status = .pending ∧ Classified f.record.payload.kind f.c
  | .confirming _ batch =>
    (∀ r ∈ batch, r ∈ t.rows ∧ r.status = .acceptedUnconfirmed) ∧
      batch.Pairwise fun a b => a.id ≠ b.id
  | _ => True

/-- Another thread's write: it leaves every row alone that is not parked for difficulty. -/
def Finds.Keeps (t t' : Finds) : Prop :=
  ∀ r ∈ t.rows, r.status ≠ .parkedDifficulty → r ∈ t'.rows

theorem Phase.Held.keep {p : Phase} {t t' : Finds} (h : p.Held t) (hk : t.Keeps t') :
    p.Held t' := by
  cases p with
  | posted f => exact ⟨hk _ h.1 (by rw [h.2.1]; simp), h.2⟩
  | hinted f polled => exact ⟨hk _ h.1 (by rw [h.2.1]; simp), h.2⟩
  | confirming i batch =>
    refine ⟨fun r hr => ?_, h.2⟩
    obtain ⟨hmem, hs⟩ := h.1 r hr
    exact ⟨hk r hmem (by rw [hs]; simp), hs⟩
  | idle => trivial
  | drained => trivial

namespace Finds

variable {t t' : Finds}

theorem eq_of_id {r r' : FindRecord} (hr : r ∈ t.rows) (hr' : r' ∈ t.rows) (h : r.id = r'.id) :
    r = r' := by
  have hnodup : (t.rows.map (·.id)).Nodup :=
    List.pairwise_map.2 (t.ids.imp fun hlt => by omega)
  exact List.inj_on_of_nodup_map hnodup hr hr' h

theorem keeps_refl : t.Keeps t := fun _ hr _ => hr

theorem keeps_append (payload : FoundPayload) : t.Keeps (t.append payload).2 := by
  intro r hr _
  unfold append
  split
  · exact hr
  · exact List.mem_append_left _ hr

theorem keeps_unpark (d : UInt32) : t.Keeps (t.unparkForDifficulty d) := by
  intro r hr hs
  exact List.mem_map.2 ⟨r, hr, if_neg fun h => hs h.1⟩

end Finds

namespace SubmissionManager

variable {cfg : Config} {env : StepEnv} {m m' : SubmissionManager}

theorem Observed.keeps {d : UInt32} (h : Observed d m m') :
    m.journal.finds.Keeps m'.journal.finds := by
  rw [h.finds]
  split_ifs
  · exact Finds.keeps_unpark d
  · exact Finds.keeps_refl

theorem submitHint_cases (f : Inflight) (ctx : StepCtx) :
    (f.c.serverDifficultyHint = none ∧ submitHint cfg env f ctx = ctx) ∨
    ∃ d, f.c.serverDifficultyHint = some d ∧ Observed d ctx.mgr (submitHint cfg env f ctx).mgr := by
  unfold submitHint
  cases f.c.serverDifficultyHint with
  | none => exact Or.inl ⟨rfl, rfl⟩
  | some d => exact Or.inr ⟨d, rfl, (noteDifficulty_spec d ctx).1⟩

/-- The window bookkeeping leaves the finds or un-parks the XUNI. -/
theorem windowed_finds {m m' : SubmissionManager} (h : SameWork m m') (wall : Int) :
    ((m'.trackWindow cfg wall).2.journal.finds = m.journal.finds ∨
      (m'.trackWindow cfg wall).2.journal.finds =
        m.journal.finds.unparkXuniForWindow cfg.xuniMaxWindows) ∧
    (m'.trackWindow cfg wall).2.lastDifficulty = m.lastDifficulty := by
  obtain ⟨-, finds, hw, hf⟩ := @trackWindow_spec cfg m' wall
  rw [hw, h.journal] at *
  refine ⟨?_, h.lastDifficulty⟩
  rw [hf]
  split_ifs
  · exact Or.inr rfl
  · exact Or.inl rfl

/-- An attempt on one row leaves the others as they are. -/
theorem mem_attempt {id : Int} {c : Classification} {http : Option Int} {body : String}
    {next : Option String} {now : String} {t t' : Finds} {r : FindRecord}
    (h : t'.rows = t.rows.map (Finds.attemptAt id c http body next now)) (hr : r ∈ t.rows)
    (hne : r.id ≠ id) : r ∈ t'.rows := by
  rw [h]
  exact List.mem_map.2 ⟨r, hr, if_neg hne⟩

theorem confirmBatch_pairwise : (confirmBatch cfg env m).Pairwise fun a b => a.id ≠ b.id := by
  refine List.Pairwise.sublist ?_ (m.journal.finds.ids.imp fun hlt => by omega)
  exact (List.take_sublist _ _).trans List.filter_sublist

end SubmissionManager

/-- Everything one part of the drain thread can do, to the journal and to the last observed
difficulty. -/
inductive Part (cfg : Config) (env : StepEnv) (s : Machine) : Machine → Prop
  | quiet (s' : Machine) (hj : s'.finds = s.finds)
      (hd : s'.mgr.lastDifficulty = s.mgr.lastDifficulty) (hp : s'.phase.Held s'.finds)
      (hn : ¬ s'.phase.InFlight) : Part cfg env s s'
  | probe (s' : Machine) (c c' : StepCtx) (hc : SameWork s.mgr c.mgr) (hp : Probed cfg env c c')
      (hj : s'.finds = c'.mgr.journal.finds)
      (hd : s'.mgr.lastDifficulty = c'.mgr.lastDifficulty) (hphase : s'.phase = .idle) :
      Part cfg env s s'
  | post (s' : Machine)
      (hj : s'.finds = s.finds ∨ s'.finds = s.finds.unparkXuniForWindow cfg.xuniMaxWindows)
      (hd : s'.mgr.lastDifficulty = s.mgr.lastDifficulty)
      (hphase : s'.phase = .drained ∨ ∃ f, s'.phase = .posted f ∧ s'.phase.Held s'.finds) :
      Part cfg env s s'
  | hint (s' : Machine) (f : Inflight) (hphase : s.phase = .posted f)
      (hphase' : s'.phase = .hinted f none)
      (h : (f.c.serverDifficultyHint = none ∧ s'.ctx = s.ctx) ∨
        ∃ d, f.c.serverDifficultyHint = some d ∧ Observed d s.mgr s'.mgr) : Part cfg env s s'
  | record (s' : Machine) (f : Inflight) (polled : Option UInt32)
      (hphase : s.phase = .hinted f polled) (hphase' : s'.phase = .drained)
      (h : Recorded cfg env f s.ctx s'.ctx) : Part cfg env s s'
  | retry (s' : Machine) (i : Nat) (rec : FindRecord) (rest : List FindRecord)
      (hphase : s.phase = .confirming i (rec :: rest))
      (hphase' : s'.phase = .confirming (i + 1) rest ∨ s'.phase = .idle)
      (h : Retried (env.lookups i) rec s.ctx s'.ctx) : Part cfg env s s'

namespace Machine

variable {cfg : Config} {env : StepEnv}

theorem begin_part (s : Machine) :
    Part cfg env s (begin cfg env s.mgr) := by
  have hsame := (@updateMargin_spec cfg env ⟨s.mgr, [], []⟩).1
  unfold begin
  dsimp only
  split_ifs with hf hopen
  · exact .quiet _ rfl rfl trivial id
  · rcases @probeStep_cases cfg env (updateMargin cfg env ⟨s.mgr, [], []⟩) with
      h | ⟨c, b, hprobed, -, h⟩
    · rw [h]
      exact .probe _ _ _ hsame (.refl _) rfl rfl rfl
    · rw [h]
      exact .probe _ _ c hsame hprobed rfl rfl rfl
  · have hposted := @submitPost_posted cfg env
      (updateMargin cfg env ⟨s.mgr, [], []⟩)
    obtain ⟨hj, hd⟩ := @windowed_finds cfg _ _ hsame (env.wall .window)
    generalize submitPost cfg env (updateMargin cfg env ⟨s.mgr, [], []⟩) = posted at hposted
    cases hposted with
    | paced h => exact .quiet _ (congrArg Journal.finds hsame.journal) hsame.lastDifficulty trivial id
    | held h => exact .post _ hj hd (Or.inl rfl)
    | nothing h p => exact .post _ hj hd (Or.inl rfl)
    | blocked h p hb => exact .post _ hj hd (Or.inl rfl)
    | sent h p o f hb hrow hpending hres hc =>
      refine .post _ hj hd (Or.inr ⟨f, rfl, hrow, hpending, ?_⟩)
      rw [hc]
      exact classify_spec _ _ _ _

/-- Behind a hint comes the record of the attempt. -/
theorem drain_recorded {s : Machine} {f : Inflight} {polled : Option UInt32}
    (hheld : s.phase.Held s.finds) (hphase : s.phase = .hinted f polled) :
    (s.drain cfg env).phase = .drained ∧ Recorded cfg env f s.ctx (s.drain cfg env).ctx := by
  rw [hphase] at hheld
  obtain ⟨hok, hrec⟩ := @submitRecord_spec cfg env _ _
    (settle_ne_submitting hheld.2.2) ⟨f.record, hheld.1, rfl⟩
  unfold drain
  rw [hphase]
  dsimp only
  rcases hr : submitRecord cfg env f s.ctx with ⟨r, ctx'⟩
  rw [hr] at hok hrec
  cases hok
  exact ⟨rfl, hrec⟩

/-- The drain thread's part is one of these, as long as it holds its rows. -/
theorem drain_part {s : Machine} (hheld : s.phase.Held s.finds) :
    Part cfg env s (s.drain cfg env) := by
  cases hphase : s.phase with
  | idle =>
    unfold drain
    rw [hphase]
    exact begin_part s
  | posted f =>
    unfold drain
    rw [hphase]
    exact .hint _ f hphase rfl (submitHint_cases f s.ctx)
  | hinted f polled =>
    obtain ⟨hphase', hrec⟩ := @drain_recorded cfg env _ _ _ hheld hphase
    exact .record _ f polled hphase hphase' hrec
  | drained =>
    unfold drain
    rw [hphase]
    dsimp only
    split_ifs with hopen
    · exact .quiet _ rfl rfl trivial id
    · exact .quiet _ rfl rfl ⟨fun r hr => confirmBatch_mem hr, confirmBatch_pairwise⟩ id
  | confirming i batch =>
    rw [hphase] at hheld
    unfold drain
    rw [hphase]
    cases batch with
    | nil => exact .quiet _ rfl rfl trivial id
    | cons rec rest =>
      obtain ⟨hok, hret⟩ := @confirmOne_spec cfg (env.lookups i) _ s.ctx
        ⟨rec, (hheld.1 rec (by simp)).1, rfl⟩
      dsimp only
      rcases hr : confirmOne cfg (env.lookups i) rec s.ctx with ⟨r, ctx'⟩
      rw [hr] at hok hret
      cases hok
      dsimp only
      split_ifs
      · exact .retry _ i rec rest hphase (Or.inl rfl) hret
      · exact .retry _ i rec rest hphase (Or.inr rfl) hret

end Machine

theorem Part.held {cfg : Config} {env : StepEnv} {s s' : Machine}
    (hheld : s.phase.Held s.finds) (h : Part cfg env s s') : s'.phase.Held s'.finds := by
  cases h with
  | quiet hj hd hp hn => exact hp
  | probe c c' hc hp hj hd hphase => rw [hphase]; trivial
  | post hj hd hphase =>
    rcases hphase with h | ⟨f, -, h⟩
    · rw [h]; trivial
    · exact h
  | hint f hphase hphase' h =>
    rw [hphase] at hheld
    rw [hphase']
    have hheld' : (Phase.hinted f none).Held s.finds := hheld
    refine hheld'.keep ?_
    rcases h with ⟨-, h⟩ | ⟨d, -, h⟩
    · unfold Machine.finds
      rw [h]
      exact Finds.keeps_refl
    · exact h.keeps
  | record f polled hphase hphase' h => rw [hphase']; trivial
  | retry i rec rest hphase hphase' h =>
    rw [hphase] at hheld
    obtain ⟨hrows, hdistinct⟩ := hheld
    rcases hphase' with h' | h'
    · rw [h']
      obtain ⟨c, http, body, next, now, hmap, -⟩ := h.rows
      obtain ⟨hne, hrest⟩ := List.pairwise_cons.1 hdistinct
      refine ⟨fun r hr => ?_, hrest⟩
      obtain ⟨hmem, hs⟩ := hrows r (by simp [hr])
      exact ⟨mem_attempt hmap hmem fun he => hne r hr he.symm, hs⟩
    · rw [h']; trivial

theorem Machine.turn_held {cfg : Config} {s : Machine} (t : Turn)
    (hheld : s.phase.Held s.finds) : (s.turn cfg t).phase.Held (s.turn cfg t).finds := by
  cases t with
  | append payload => exact hheld.keep (Finds.keeps_append payload)
  | observe d mono =>
    have hkeep := hheld.keep
      (@observeDifficulty_spec cfg s.mgr d mono).keeps
    unfold turn observed
    dsimp only
    cases hphase : s.phase <;> rw [hphase] at hkeep <;> exact hkeep
  | drain env => exact (drain_part hheld).held hheld
  | restart => trivial

end TreeMiner
