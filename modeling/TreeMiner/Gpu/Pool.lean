import TreeMiner.Gpu.Argon2
import TreeMiner.Gpu.Staged

/-! The pool of a hasher, over every history of batches and releases: whatever failed before,
a batch that succeeds comes to what it comes to on a fresh hasher, and no copy or launch ever
leaves its buffers. -/

namespace TreeMiner.Gpu

open Host Lib
open Kernel.Blake2b (bytesOf)

variable {kernels : Kernels} {host : HashHost} {smooth idle : Prop}
  {state : KernelRunner → Prop} {shape : Argon2Shape} {batchSize : Nat}

/-- The pool there is is sound, and every range so far was in bounds. -/
structure Kept (w : World (Option KernelRunner)) : Prop where
  sound : ∀ runner, w.device = some runner → runner.Sound
  log : ∀ a ∈ w.log, a.InBounds

structure Opened (smooth : Prop) (w : World (Option KernelRunner)) : Prop extends Kept w where
  turns : smooth → w.turns = []

/-- What a failed call of the hasher leaves behind. -/
structure Missed (smooth : Prop) (w : World (Option KernelRunner)) : Prop extends Kept w where
  rough : ¬ smooth

theorem Kept.of_device {w : World (Option KernelRunner)} {runner : KernelRunner}
    (hrunner : w.device = some runner) (hsound : runner.Sound) (hlog : ∀ a ∈ w.log, a.InBounds) :
    Kept w := by
  refine ⟨fun other hother => ?_, hlog⟩
  rw [hrunner] at hother
  cases hother
  exact hsound

/-- There is a pool, and this holds of it. -/
def Pooled (p : World KernelRunner → Prop) (w : World (Option KernelRunner)) : Prop :=
  ∃ runner, w.device = some runner ∧ p { w with device := runner }

theorem runnerMut_run {α : Type} (call : Call KernelRunner α) (runner : KernelRunner)
    (turns : List Turn) (log : List Access) :
    (runnerMut call).run.run ⟨some runner, turns, log⟩ =
      ((call.run.run ⟨runner, turns, log⟩).1, { (call.run.run ⟨runner, turns, log⟩).2 with
        device := some (call.run.run ⟨runner, turns, log⟩).2.device }) := rfl

theorem runnerMut_spec {α : Type} {before : World KernelRunner → Prop}
    {call : Call KernelRunner α} {after : α → World KernelRunner → Prop}
    (h : Triple before call after (Failed smooth)) :
    Triple (Pooled before) (runnerMut call) (fun a => Pooled (after a)) (Missed smooth) := by
  rintro ⟨device, turns, log⟩ ⟨runner, rfl, hbefore⟩
  have hend := h _ hbefore
  rw [runnerMut_run]
  revert hend
  cases call.run.run ⟨runner, turns, log⟩ with
  | mk result w =>
    cases result with
    | ok a => exact fun hafter => ⟨w.device, rfl, hafter⟩
    | error e => exact fun hfailed => ⟨.of_device rfl hfailed.sound hfailed.log, hfailed.rough⟩

/-! ## The pool is kept or made anew -/

/-- Held of a pool that is there. -/
theorem Opened.held {w : World (Option KernelRunner)} (h : Opened smooth w) {runner : KernelRunner}
    (hrunner : w.device = some runner) :
    Held kernels smooth False (fun _ => True) { w with device := runner } :=
  ⟨h.sound runner hrunner, h.log, h.turns, False.elim, trivial⟩

theorem Opened.of_held {w : World KernelRunner} (h : Held kernels smooth idle state w) :
    Opened smooth { w with device := some w.device } :=
  ⟨.of_device rfl h.sound h.log, h.turns⟩

theorem Opened.release {w : World (Option KernelRunner)} (h : Opened smooth w) :
    Opened smooth (w.release kernels) := by
  unfold World.release
  cases hdevice : w.device with
  | none => exact h
  | some runner =>
    have hdrained := (@Opened.held kernels _ _ h _ hdevice).drain
    exact ⟨⟨nofun, hdrained.log⟩, hdrained.turns⟩

theorem takeTurn_opened : Triple (Opened smooth) takeTurn
    (fun turn w => Opened smooth w ∧ (smooth → turn = {})) (Missed smooth) := by
  intro w h
  refine ⟨⟨⟨h.sound, h.log⟩, fun hday => ?_⟩, fun hday => ?_⟩
  · change w.turns.tail = []
    rw [h.turns hday]
    rfl
  · rw [h.turns hday]
    rfl

theorem check_opened (turn : Turn) (call : String) (hturn : smooth → turn = {}) :
    Triple (Opened smooth) (turn.check call) (fun _ => Opened smooth) (Missed smooth) := by
  refine Triple.ite (fun hfails => Triple.throw fun w h => ⟨h.toKept, fun hday => ?_⟩)
    fun _ => Triple.pure fun w h => h
  rw [hturn hday] at hfails
  cases hfails

theorem step_opened {α : Type} (call : String) {next : Turn → Call (Option KernelRunner) α}
    {after : α → World (Option KernelRunner) → Prop}
    (hnext : ∀ turn, Triple (Opened smooth) (next turn) after (Missed smooth)) :
    Triple (Opened smooth) (do
      let turn ← takeTurn
      turn.check call
      next turn) after (Missed smooth) := by
  refine takeTurn_opened.bind fun turn => Triple.of_start fun w hw => ?_
  refine Triple.pre ((check_opened turn call hw.2).bind fun _ => hnext turn) ?_
  rintro s rfl
  exact hw.1

theorem createEvents_spec (n : Nat) : Triple (Opened smooth) (createEvents n)
    (fun _ => Opened smooth) (Missed smooth) := by
  induction n with
  | zero => exact Triple.pure fun w h => h
  | succ n ih => exact step_opened _ fun _ => ih

theorem activate_spec : Triple (Opened smooth) (activate kernels) (fun _ => Opened smooth)
    (Missed smooth) := by
  refine takeTurn_opened.bind fun turn => Triple.of_start fun w hw => ?_
  refine Triple.bind (Triple.update (Q := fun _ => Opened smooth) ?_)
    fun _ => check_opened turn _ hw.2
  rintro s rfl
  cases hdevice : s.device with
  | none => exact hw.1
  | some runner => exact Opened.of_held ((@Opened.held kernels _ _ hw.1 _ hdevice).retire turn.ran)

/-- A fresh pool is sound, with nothing queued and nothing staged. -/
theorem new_spec {difficulty : UInt32} (hshape : shape = .forDifficulty difficulty)
    (hsmooth : smooth → batchSize ≠ 0 ∧ batchSize * shape.jobBytes < 2 ^ 64) :
    Triple (Opened smooth) (KernelRunner.new shape batchSize)
      (fun runner w => Opened smooth w ∧ runner.Sound ∧ Ready shape batchSize runner)
      (Missed smooth) := by
  unfold KernelRunner.new
  refine Triple.ite (fun hzero => Triple.throw fun w h => ⟨h.toKept, fun hday => ?_⟩) fun _ => ?_
  · exact absurd hzero (hsmooth hday).1
  · refine Triple.ite (fun hlarge => Triple.throw fun w h => ⟨h.toKept, fun hday => ?_⟩)
      fun hfits => ?_
    · exact absurd (hsmooth hday).2 (Nat.not_lt.2 hlarge)
    · refine step_opened _ fun _ => (createEvents_spec 8).bind fun _ => step_opened _ fun turn => ?_
      refine Triple.pure fun w h => ⟨h, ?_, ⟨rfl, rfl⟩, rfl⟩
      have hmemory : batchSize * shape.jobBytes =
          batchSize * (shape.segmentBlocks.toNat * 4096) := by
        rw [hshape, jobBytes_forDifficulty]
      have hshape' : shape = .forDifficulty shape.memoryCost := by
        rw [hshape]
        rfl
      exact ⟨hshape', le_rfl, hmemory, Nat.not_le.1 hfits, Nat.mul_assoc .., rfl,
        fun operation hmem => absurd hmem List.not_mem_nil⟩

/-- A pool that serves the shape has room for its jobs. -/
theorem KernelRunner.Sound.reconfigure {self : KernelRunner} (h : self.Sound)
    {difficulty : UInt32} (hshape : shape = .forDifficulty difficulty)
    (hreuse : self.canReuse shape batchSize = true) :
    (self.reconfigure shape batchSize).Sound := by
  unfold KernelRunner.canReuse at hreuse
  simp only [Bool.and_eq_true, beq_iff_eq, decide_eq_true_eq] at hreuse
  have hbatch : self.batchSize = batchSize := hreuse.1.2
  have hsegment := UInt32.le_iff_toNat_le.1 hreuse.2
  have hshape' : shape = .forDifficulty shape.memoryCost := by
    rw [hshape]
    rfl
  refine ⟨hshape', hsegment, ?_, h.fits, ?_, ?_, h.stream⟩
  · exact h.memory.trans (by rw [hbatch]; rfl)
  · exact h.blocksIn.trans (by rw [hbatch]; rfl)
  · exact h.blocksOut.trans (by rw [hbatch]; rfl)

theorem init_spec {difficulty : UInt32} (hshape : shape = .forDifficulty difficulty)
    (hsmooth : smooth → batchSize ≠ 0 ∧ batchSize * shape.jobBytes < 2 ^ 64) :
    Triple (Opened smooth) (init kernels shape batchSize)
      (fun _ => Pooled (Held kernels smooth False (Ready shape batchSize))) (Missed smooth) := by
  refine Triple.get_bind fun w h => Triple.ite (fun hreuse => ?_) fun _ => ?_
  · refine Triple.update ?_
    rintro s rfl
    cases hdevice : s.device with
    | none =>
      rw [hdevice] at hreuse
      cases hreuse
    | some runner =>
      rw [hdevice] at hreuse
      have hsound := (h.sound runner hdevice).reconfigure hshape hreuse
      refine ⟨runner.reconfigure shape batchSize, ?_, hsound, h.log, h.turns, False.elim, ?_⟩
      · unfold World.over
        rw [hdevice]
        rfl
      · exact framed_ready.drained.2 ⟨⟨rfl, rfl⟩, rfl⟩
  · refine Triple.bind (Triple.update (Q := fun _ => Opened smooth) ?_) fun _ => ?_
    · rintro s rfl
      exact h.release
    · refine (new_spec hshape hsmooth).bind fun runner => Triple.update ?_
      rintro s ⟨hs, hsound, hready⟩
      exact ⟨runner, rfl, hsound, hs.log, hs.turns, False.elim, framed_ready.drained.2 hready⟩

/-! ## One batch -/

/-- Of an idle runner the read-back buffer is read as it is. -/
theorem outputBlocks_spec {first : Kernel.Bytes} :
    Triple (Held kernels smooth True (Hashed kernels shape batchSize first))
      (outputBlocks batchSize)
      (fun blocks w =>
        blocks = bytesOf (lastBytes kernels shape first) (batchSize * ARGON2_BLOCK_SIZE) ∧
        Held kernels smooth True (Hashed kernels shape batchSize first) w) (Failed smooth) := by
  refine Triple.get_bind fun w h => ?_
  have hidle := h.state
  rw [drained_idle (h.stream trivial)] at hidle
  refine Triple.ite (fun hsmall => ?_) fun _ => Triple.pure fun s hs => ⟨?_, hs ▸ h⟩
  · have hsize := h.sound.blocksOut
    rw [hidle.batchEq] at hsize
    omega
  · exact bytesOf_congr hidle.blocks

variable {request : HashRequest}

/-- Out of the last blocks of its jobs a batch comes to what it comes to without a pool. -/
theorem digests_spec {salt : List UInt8} {first : Kernel.Bytes}
    {w : World (Option KernelRunner)} (hsalt : checkRequest request = .ok salt)
    (hfirst : firstBytes kernels host request salt (.forDifficulty request.difficulty) = .ok first)
    (hkept : Kept w) (workerCount : Nat)
    (hday : smooth → ∃ outcome, hashBatch kernels host request = .ok outcome) :
    Triple (· = w) (do
      let finalized ← MonadExcept.ofExcept ((finalizeBatch request.toBatchRequest
        host.toArgon2Host (blocksOf kernels request first) workerCount).mapError CallError.gpu)
      return .of request finalized : Call (Option KernelRunner) BatchOutcome)
      (fun outcome s => hashBatch kernels host request = .ok outcome ∧ Kept s) (Missed smooth) := by
  refine Triple.bind (Triple.ofExcept (Q := fun finalized s => finalizeBatch
    request.toBatchRequest host.toArgon2Host (blocksOf kernels request first) 1 = .ok finalized ∧
      s = w) (fun finalized s hok hs => ⟨?_, hs⟩) fun e s herror hs => ⟨hs ▸ hkept, fun hs => ?_⟩)
    fun finalized => Triple.pure fun s hs =>
      ⟨(hashBatch_ok_iff hsalt hfirst _).2 ⟨finalized, hs.1, rfl⟩, hs.2 ▸ hkept⟩
  · exact (finalizeBatch_ok_iff _ _).1 (mapError_ok.1 hok)
  · obtain ⟨outcome, hhash⟩ := hday hs
    obtain ⟨finalized, hok, -⟩ := (hashBatch_ok_iff hsalt hfirst outcome).1 hhash
    rw [mapError_ok.2 ((finalizeBatch_ok_iff _ _).2 hok)] at herror
    cases herror

/-- From any pool a batch comes to what it comes to without one, and on a smooth day it does
come to it. -/
theorem runBatch_spec (hardwareThreads : Nat)
    (hsmooth : smooth → request.Fits ∧ ∃ outcome, hashBatch kernels host request = .ok outcome) :
    Triple (Opened smooth) (runBatch kernels host request hardwareThreads)
      (fun outcome w => hashBatch kernels host request = .ok outcome ∧ request.Fits ∧ Kept w)
      (Missed smooth) := by
  have hday : smooth → ∃ salt first, checkRequest request = .ok salt ∧
      firstBytes kernels host request salt (.forDifficulty request.difficulty) = .ok first := by
    intro hs
    obtain ⟨-, outcome, hok⟩ := hsmooth hs
    exact firstBytes_of_hashBatch hok
  -- the checks
  refine Triple.bind (Triple.ofExcept
    (Q := fun salt w => checkRequest request = .ok salt ∧ Opened smooth w)
    (fun salt w hsalt h => ⟨hsalt, h⟩) fun e w herror h => ⟨h.toKept, fun hs => ?_⟩)
    fun salt => Triple.of_start fun w hw => ?_
  · obtain ⟨salt, -, hsalt, -⟩ := hday hs
    rw [herror] at hsalt
    cases hsalt
  obtain ⟨hsalt, hw⟩ := hw
  refine Triple.pre (P := Opened smooth) ?_ fun s hs => hs ▸ hw
  -- the pool
  refine activate_spec.bind fun _ => (init_spec rfl fun hs =>
    ⟨passwords_nonempty hsalt, (hsmooth hs).1⟩).bind fun _ => ?_
  -- the first blocks
  refine (runnerMut_spec (stageFirstBlocks_spec fun hs => ?_)).bind
    fun _ => Triple.of_start fun w hw => ?_
  · obtain ⟨salt', first, hsalt', hfirst⟩ := hday hs
    rw [hsalt] at hsalt'
    cases hsalt'
    exact ⟨first, hfirst⟩
  obtain ⟨runner, hrunner, first, hfirst, hstaged⟩ := hw
  refine Triple.pre (P := Pooled (Held kernels smooth False fun runner =>
    StagedFor kernels (.forDifficulty request.difficulty) request.passwords.length first runner
      runner.pendingFirstBlocks)) ?_ fun s hs => hs ▸ ⟨runner, hrunner, hstaged⟩
  -- the device
  refine (runnerMut_spec run_spec).bind fun _ => (runnerMut_spec finish_spec).bind fun _ => ?_
  refine (runnerMut_spec outputBlocks_spec).bind fun blocks => Triple.of_start fun w hw => ?_
  obtain ⟨runner, hrunner, hblocks, hheld⟩ := hw
  have hkept : Kept w := .of_device hrunner hheld.sound hheld.log
  have hfits : request.Fits := by
    have hasked := hheld.state.of_drained
    have hpool := hheld.sound.pool.trans_lt hheld.sound.fits
    rwa [hasked.shapeEq, hasked.batchEq] at hpool
  -- the digests
  have hblocks : blocks = blocksOf kernels request first := hblocks
  rw [hblocks]
  exact (digests_spec hsalt hfirst hkept _ fun hs => (hsmooth hs).2).post
    fun outcome s hs => ⟨hs.1, hfits, hs.2⟩

/-! ## Histories -/

/-- A batch leaves the pool sound, however it ends. -/
theorem kept_runBatch {w : World (Option KernelRunner)} (h : Kept w) (request : HashRequest)
    (hardwareThreads : Nat) :
    Kept ((runBatch kernels host request hardwareThreads).run.run w).2 :=
  (@runBatch_spec kernels host False request hardwareThreads False.elim).leaves ⟨h, False.elim⟩
    (fun _ _ hend => hend.2.2) fun _ hend => hend.toKept

theorem kept_step {w : World (Option KernelRunner)} (h : Kept w) (event : Event) :
    Kept (w.step kernels host event) := by
  cases event with
  | releaseBuffers =>
    have hopened : Opened False w := ⟨h, False.elim⟩
    exact hopened.release.toKept
  | runBatch request hardwareThreads turns =>
    have hturns : Kept { w with turns } := ⟨h.sound, h.log⟩
    exact kept_runBatch hturns request hardwareThreads

theorem kept_after (kernels : Kernels) (host : HashHost) (history : List Event) :
    Kept (World.after kernels host history) := by
  have hrun : ∀ w, Kept w → Kept (history.foldl (World.step kernels host) w) := by
    induction history with
    | nil => exact fun w h => h
    | cons event history ih => exact fun w h => ih _ (kept_step h event)
  exact hrun _ ⟨nofun, fun a ha => absurd ha List.not_mem_nil⟩

/-- A batch that succeeds comes to what it comes to without a pool. -/
theorem hashBatch_of_runBatch {w : World (Option KernelRunner)} (h : Kept w)
    {request : HashRequest} {hardwareThreads : Nat} {outcome : BatchOutcome}
    (hok : ((runBatch kernels host request hardwareThreads).run.run w).1 = .ok outcome) :
    hashBatch kernels host request = .ok outcome ∧ request.Fits := by
  have hend := (@runBatch_spec kernels host False request hardwareThreads False.elim).of_ok
    ⟨h, False.elim⟩ hok
  exact ⟨hend.1, hend.2.1⟩

/-- On a smooth day a batch that fits comes to what it comes to without a pool. -/
theorem runBatch_smooth {w : World (Option KernelRunner)} (h : Kept w) (hturns : w.turns = [])
    {request : HashRequest} (hardwareThreads : Nat) {outcome : BatchOutcome}
    (hfits : request.Fits) (hok : hashBatch kernels host request = .ok outcome) :
    ((runBatch kernels host request hardwareThreads).run.run w).1 = .ok outcome := by
  obtain ⟨outcome', hend⟩ := (@runBatch_spec kernels host True request hardwareThreads
    fun _ => ⟨hfits, outcome, hok⟩).returns ⟨h, fun _ => hturns⟩ fun _ hfailed =>
      hfailed.rough trivial
  rw [(hashBatch_of_runBatch h hend).1] at hok
  rw [hend, hok]

/-- Pool reuse is invisible and in bounds. After any history of batches, each with any failures
of the driver and the host, and of releases, a batch that succeeds has the outcome it has on a
fresh hasher, and every range a copy or a launch has read or written lies in its buffer. -/
theorem pool_reuse (kernels : Kernels) (host : HashHost) (history : List Event)
    (request : HashRequest) (hardwareThreads : Nat) (turns : List Turn) :
    let before := World.after kernels host history
    let after := (runBatch kernels host request hardwareThreads).run.run { before with turns }
    (∀ a ∈ before.log ++ after.2.log, a.InBounds) ∧
    ∀ outcome, after.1 = .ok outcome → ∀ hardwareThreads',
      ((runBatch kernels host request hardwareThreads').run.run (World.fresh [])).1 =
        .ok outcome ∧
      ∀ turns' outcome',
        ((runBatch kernels host request hardwareThreads').run.run (World.fresh turns')).1 =
          .ok outcome' → outcome' = outcome := by
  intro before after
  have hkept : Kept before := kept_after kernels host history
  have hbefore : Kept { before with turns } := ⟨hkept.sound, hkept.log⟩
  have hfresh : ∀ turns', Kept (World.fresh turns') :=
    fun turns' => ⟨nofun, fun a ha => absurd ha List.not_mem_nil⟩
  constructor
  · intro a ha
    rcases List.mem_append.1 ha with ha | ha
    · exact hkept.log a ha
    · exact (kept_runBatch hbefore request hardwareThreads).log a ha
  · intro outcome hok hardwareThreads'
    obtain ⟨hhash, hfits⟩ := hashBatch_of_runBatch hbefore hok
    refine ⟨runBatch_smooth (hfresh []) rfl _ hfits hhash, fun turns' outcome' hok' => ?_⟩
    have hhash' := (hashBatch_of_runBatch (hfresh turns') hok').1
    rw [hhash] at hhash'
    exact (Except.ok.inj hhash').symm

/-- A launch of the first blocks is queued when its batch fails, and the next batch needs a
larger key buffer. -/
def regrown : List Event :=
  [.runBatch ⟨⟨["0123"], "XEN11", true, false⟩, "00ff", 16, true⟩ 1
    (List.replicate 20 ({} : Turn) ++ [{ fails := true }]),
  .runBatch ⟨⟨["01234567"], "XEN11", true, true⟩, "00ff", 9, true⟩ 1 [],
  .releaseBuffers,
  .runBatch ⟨⟨["01234567"], "XEN11", true, true⟩, "00ff", 60, false⟩ 1 [{ fails := true }]]

def regrownRequest : HashRequest := ⟨⟨["89ab"], "XEN11", true, true⟩, "00ff", 8, true⟩

/-- Behind that history a batch is hashed as on a fresh hasher. -/
theorem pool_reuse_regrown :
    let before := World.after argon2Kernels blake2bHost regrown
    ∃ outcome, ((runBatch argon2Kernels blake2bHost regrownRequest 1).run.run
        { before with turns := [] }).1 = .ok outcome ∧
      ((runBatch argon2Kernels blake2bHost regrownRequest 4).run.run (World.fresh [])).1 =
        .ok outcome := by
  have hsalt : checkRequest regrownRequest = .ok [0, 255] := by decide
  have hdevice : (deviceKeyLength regrownRequest.passwords.length regrownRequest.passwords [0, 255]
      (.forDifficulty regrownRequest.difficulty)).isSome := by decide
  obtain ⟨outcome, hhash⟩ := @hashBatch_cpu _ (fun _ _ _ _ => rfl) argon2Kernels _ _ hsalt
    fun _ => hdevice
  have hfits : regrownRequest.Fits := by
    unfold HashRequest.Fits
    decide
  have hkept := kept_after argon2Kernels blake2bHost regrown
  have hpool := pool_reuse argon2Kernels blake2bHost regrown regrownRequest 1 []
  generalize World.after argon2Kernels blake2bHost regrown = before at hkept hpool ⊢
  have hturns : Kept { before with turns := [] } := ⟨hkept.sound, hkept.log⟩
  have hok := runBatch_smooth hturns rfl 1 hfits hhash
  exact ⟨outcome, hok, (hpool.2 outcome hok 4).1⟩

end TreeMiner.Gpu
