import TreeMiner.Lib.Cycle
import TreeMiner.Lib.Run
import TreeMiner.Miner.Capture
import TreeMiner.Miner.Work

/-! The devfee share over whole runs. A GPU thread counts its batches inside one
mining unit; the CPU workers share one counter for the life of the process. -/

namespace TreeMiner

open TreeMiner.Lib

/-! ## One cycle -/

def MiningIdentity.userWork (identity : MiningIdentity) : Work := ⟨identity.userSalt, ""⟩

def MiningIdentity.devWork (identity : MiningIdentity) : Work :=
  ⟨stripHexPrefix identity.devfeeAddress, DEVFEE_PREFIX ++ identity.userSalt⟩

def MiningIdentity.ecoWork (identity : MiningIdentity) : Work :=
  ⟨stripHexPrefix identity.ecoDevfeeAddress, ECODEVFEE_PREFIX ++ identity.userSalt⟩

/-- The batches of a thousand owed to the ecosystem address. -/
def MiningIdentity.ecoShare (identity : MiningIdentity) : Int :=
  if identity.ecoDevfeeAddress.isEmpty then 0 else identity.devfeePermillage / 2

/-- A thousand batches split as the identity's fee says. -/
structure Shared (identity : MiningIdentity) (window : List Work) : Prop where
  eco : (window.count identity.ecoWork : Int) = identity.ecoShare
  dev : (window.count identity.devWork : Int) = identity.devfeePermillage - identity.ecoShare
  user : (window.count identity.userWork : Int) = DEVFEE_CYCLE - identity.devfeePermillage

/-- Every thousand consecutive batches are split as the identity's fee says. -/
def FeeShare (identity : MiningIdentity) (batches : List Work) : Prop :=
  ∀ window, window <:+: batches → (window.length : Int) = DEVFEE_CYCLE → Shared identity window

/-- What the fee settings of a build are held to. -/
structure Payable (identity : MiningIdentity) : Prop where
  low : 0 ≤ identity.devfeePermillage
  high : identity.devfeePermillage ≤ DEVFEE_CYCLE
  unprefixed : identity.selfMiningPrefix = ""

theorem devWork_ne_userWork (identity : MiningIdentity) :
    identity.devWork ≠ identity.userWork := by
  intro h
  have := congrArg (fun w => w.keyPrefix.length) h
  simp [MiningIdentity.devWork, MiningIdentity.userWork, DEVFEE_PREFIX] at this

theorem ecoWork_ne_userWork (identity : MiningIdentity) :
    identity.ecoWork ≠ identity.userWork := by
  intro h
  have := congrArg (fun w => w.keyPrefix.length) h
  simp [MiningIdentity.ecoWork, MiningIdentity.userWork, ECODEVFEE_PREFIX] at this

theorem ecoWork_ne_devWork (identity : MiningIdentity) :
    identity.ecoWork ≠ identity.devWork := by
  intro h
  have := congrArg (fun w => w.keyPrefix.toList.head?) h
  simp [MiningIdentity.ecoWork, MiningIdentity.devWork, ECODEVFEE_PREFIX, DEVFEE_PREFIX] at this

/-- The three kinds of batch, by the slot they stand in. -/
theorem selectWork_slot {identity : MiningIdentity} (h : Payable identity) {slot : Nat}
    (hslot : slot < 1000) :
    selectWork identity slot =
      if (slot : Int) < DEVFEE_CYCLE - identity.devfeePermillage then identity.userWork
      else if (slot : Int) < DEVFEE_CYCLE - identity.ecoShare then identity.devWork
      else identity.ecoWork := by
  have hhalf : identity.devfeePermillage.tdiv 2 = identity.devfeePermillage / 2 :=
    Int.tdiv_eq_ediv_of_nonneg h.low
  have heco : DEVFEE_CYCLE - (slot : Int) ≤ identity.devfeePermillage.tdiv 2
      ∧ (!identity.ecoDevfeeAddress.isEmpty) = true ↔
      ¬ (slot : Int) < DEVFEE_CYCLE - identity.ecoShare := by
    rw [hhalf, MiningIdentity.ecoShare]
    cases identity.ecoDevfeeAddress.isEmpty with
    | true => simp [DEVFEE_CYCLE]; omega
    | false => simp; omega
  have huser : DEVFEE_CYCLE - (slot : Int) > identity.devfeePermillage ↔
      (slot : Int) < DEVFEE_CYCLE - identity.devfeePermillage := by omega
  unfold selectWork
  rw [h.unprefixed, if_neg (by simp)]
  simp only [heco, huser, ite_not]
  rfl

theorem ecoShare_bounds {identity : MiningIdentity} (h : Payable identity) :
    0 ≤ identity.ecoShare ∧ identity.ecoShare ≤ identity.devfeePermillage := by
  have hlow := h.low
  unfold MiningIdentity.ecoShare
  split_ifs <;> omega

/-- The whole cycle: first the user, then the devfee address, then the eco address. -/
theorem cycle_eq {identity : MiningIdentity} (h : Payable identity) :
    (List.range 1000).map (fun i : Nat => selectWork identity i) =
      List.replicate (DEVFEE_CYCLE - identity.devfeePermillage).toNat identity.userWork ++
        (List.replicate (identity.devfeePermillage - identity.ecoShare).toNat identity.devWork ++
          List.replicate identity.ecoShare.toNat identity.ecoWork) := by
  have hhigh := h.high
  obtain ⟨hlow, hle⟩ := ecoShare_bounds h
  simp only [DEVFEE_CYCLE] at hhigh
  have hblocks := cycle_blocks (f := fun i : Nat => selectWork identity i) (c := 1000)
    (a := (DEVFEE_CYCLE - identity.devfeePermillage).toNat)
    (b := (DEVFEE_CYCLE - identity.ecoShare).toNat) (x := identity.userWork)
    (y := identity.devWork) (z := identity.ecoWork)
    (by simp only [DEVFEE_CYCLE]; omega) (by simp only [DEVFEE_CYCLE]; omega) ?_
  · have hdev : (DEVFEE_CYCLE - identity.ecoShare).toNat -
        (DEVFEE_CYCLE - identity.devfeePermillage).toNat =
        (identity.devfeePermillage - identity.ecoShare).toNat := by
      simp only [DEVFEE_CYCLE]
      omega
    have heco : 1000 - (DEVFEE_CYCLE - identity.ecoShare).toNat = identity.ecoShare.toNat := by
      simp only [DEVFEE_CYCLE]
      omega
    rw [hblocks, hdev, heco]
  · intro i hi
    simp only [selectWork_slot h hi, Int.lt_toNat]

/-- One turn of the cycle is split as the identity's fee says. -/
theorem shared_of_perm {identity : MiningIdentity} (h : Payable identity) {window : List Work}
    (hw : window.Perm ((List.range 1000).map fun i : Nat => selectWork identity i)) :
    Shared identity window := by
  have hhigh := h.high
  obtain ⟨hlow, hle⟩ := ecoShare_bounds h
  rw [cycle_eq h] at hw
  refine ⟨?_, ?_, ?_⟩ <;>
  · rw [hw.count_eq]
    simp [List.count_replicate, ecoWork_ne_devWork, ecoWork_ne_userWork, devWork_ne_userWork,
      (ecoWork_ne_devWork identity).symm, (ecoWork_ne_userWork identity).symm,
      (devWork_ne_userWork identity).symm]
    omega

/-- Batches that go round the cycle slot by slot pay the fee. -/
theorem feeShare_turns {identity : MiningIdentity} (h : Payable identity) (n : Nat) :
    FeeShare identity (turns (fun i : Nat => selectWork identity i) 1000 n) := by
  intro window hwin hlen
  simp only [DEVFEE_CYCLE] at hlen
  exact shared_of_perm h (perm_of_turn hwin (by omega))

/-- Every slot of the cycle mines for one address. -/
def OneAddress (identity : MiningIdentity) : Prop :=
  identity.devfeePermillage = 0 ∨
    identity.devfeePermillage = DEVFEE_CYCLE ∧ identity.ecoDevfeeAddress.isEmpty

theorem selectWork_const {identity : MiningIdentity} (h : Payable identity)
    (hone : OneAddress identity) {slot : Nat} (hslot : slot < 1000) :
    selectWork identity slot = selectWork identity ((0 : Nat) : Int) := by
  have hzero := selectWork_slot h (show 0 < 1000 by omega)
  rw [selectWork_slot h hslot, hzero]
  have hcycle : DEVFEE_CYCLE = 1000 := rfl
  rcases hone with hfee | ⟨hfee, heco⟩
  · have huser : ∀ i : Nat, i < 1000 → (i : Int) < DEVFEE_CYCLE - identity.devfeePermillage := by
      omega
    rw [if_pos (huser slot hslot), if_pos (huser 0 (by omega))]
  · have hshare : identity.ecoShare = 0 := by simp [MiningIdentity.ecoShare, heco]
    have huser : ∀ i : Nat, ¬ (i : Int) < DEVFEE_CYCLE - identity.devfeePermillage := by omega
    have hdev : ∀ i : Nat, i < 1000 → (i : Int) < DEVFEE_CYCLE - identity.ecoShare := by omega
    rw [if_neg (huser slot), if_pos (hdev slot hslot), if_neg (huser 0), if_pos (hdev 0 (by omega))]

/-! ## A GPU thread -/

inductive LoopExit
  | stopped
  | difficultyChanged
  | recoverable
deriving DecidableEq, Repr

structure MineUnit where
  difficulty : UInt32
  batchIndex : Int
deriving DecidableEq, Repr

/-- What one round of the loop reads: the effective difficulty, whether mining is paused,
how the batch ends. -/
structure Round where
  effective : UInt32
  paused : Bool
  batchOk : Bool
deriving DecidableEq, Repr

inductive RoundEnd
  | left (exit : LoopExit)
  | idle
  | completed (work : Work) (next : MineUnit)
deriving DecidableEq, Repr

/-- One round of the loop of `MineUnit::run`. -/
def MineUnit.round (identity : MiningIdentity) (u : MineUnit) (r : Round) : RoundEnd :=
  if r.effective ≠ u.difficulty then .left .difficultyChanged
  else if r.paused then .idle
  else if !r.batchOk then .left .recoverable
  else
    let batchIndex := u.batchIndex + 1
    .completed (selectWork identity u.batchIndex)
      { u with batchIndex := if batchIndex ≥ DEVFEE_CYCLE then 0 else batchIndex }

/-- A thread of `run_mining_on_device`: the unit whose loop it is in, if any, and the
batches it has completed. -/
structure DeviceThread where
  running : Bool
  unit : Option MineUnit
  completed : List Work
deriving DecidableEq, Repr

def DeviceThread.fresh : DeviceThread := ⟨true, none, []⟩

inductive DeviceEvent
  /-- A unit is made at the difficulty read; `selected` is what the backend plans. -/
  | build (difficulty : UInt32) (selected : Option Nat)
  | round (r : Round)
  | stop
deriving DecidableEq, Repr

/-- `run_mining_on_device`, one plan or one round at a time. -/
def DeviceThread.step (identity : MiningIdentity) (d : DeviceThread) :
    DeviceEvent → DeviceThread
  | .build difficulty selected =>
    match d.running, d.unit, selected with
    | true, none, some (_ + 1) => { d with unit := some ⟨difficulty, 0⟩ }
    | _, _, _ => d
  | .round r =>
    match d.unit with
    | none => d
    | some u =>
      match u.round identity r with
      | .left _ => { d with unit := none }
      | .idle => d
      | .completed work next => { d with unit := some next, completed := d.completed ++ [work] }
  | .stop => { d with running := false, unit := none }

/-- The round ends the loop for a rebuild. -/
def MineUnit.RebuiltBy (u : MineUnit) (r : Round) : Prop :=
  r.effective ≠ u.difficulty ∨ r.paused = false ∧ r.batchOk = false

/-- A unit is given up only between two cycles, unless all slots are alike. -/
def KeepsCycle (identity : MiningIdentity) (t : Trans DeviceThread DeviceEvent) : Prop :=
  OneAddress identity ∨ ∀ u r, t.pre.unit = some u → t.ev = .round r → u.RebuiltBy r →
    u.batchIndex = 0

/-- Where a thread stands in the cycle. -/
structure OnCycle (identity : MiningIdentity) (d : DeviceThread) : Prop where
  completed : d.completed =
    turns (fun i : Nat => selectWork identity i) 1000 d.completed.length
  inLoop : ∀ u, d.unit = some u → ∃ slot : Nat, u.batchIndex = slot ∧ slot < 1000 ∧
    (OneAddress identity ∨ slot = d.completed.length % 1000)
  between : d.unit = none → d.running = true → OneAddress identity ∨ d.completed.length % 1000 = 0

theorem round_left {identity : MiningIdentity} {u : MineUnit} {r : Round} {exit : LoopExit}
    (h : u.round identity r = .left exit) : u.RebuiltBy r := by
  unfold MineUnit.round at h
  split_ifs at h with hdiff hpause hok
  · exact Or.inl hdiff
  · exact Or.inr ⟨by simpa using hpause, by simpa using hok⟩

theorem round_completed {identity : MiningIdentity} {u next : MineUnit} {r : Round} {work : Work}
    (h : u.round identity r = .completed work next) :
    work = selectWork identity u.batchIndex ∧
      next.batchIndex = if u.batchIndex + 1 ≥ DEVFEE_CYCLE then 0 else u.batchIndex + 1 := by
  unfold MineUnit.round at h
  split_ifs at h with hdiff hpause hok
  · cases h
    exact ⟨rfl, rfl⟩

/-- The slot a thread completes is the next of the cycle. -/
theorem slot_work {identity : MiningIdentity} (h : Payable identity) {slot n : Nat}
    (hslot : slot < 1000) (hn : OneAddress identity ∨ slot = n % 1000) :
    selectWork identity slot = selectWork identity ((n % 1000 : Nat) : Int) := by
  rcases hn with hone | hn
  · rw [selectWork_const h hone hslot, selectWork_const h hone (Nat.mod_lt n (by omega))]
  · rw [hn]

theorem onCycle_fresh (identity : MiningIdentity) : OnCycle identity .fresh :=
  ⟨rfl, by simp [DeviceThread.fresh], fun _ _ => Or.inr rfl⟩

theorem onCycle_step {identity : MiningIdentity} (h : Payable identity)
    {t : Trans DeviceThread DeviceEvent} (hstep : t.post = t.pre.step identity t.ev)
    (hinv : OnCycle identity t.pre) (hkeep : KeepsCycle identity t) :
    OnCycle identity t.post := by
  obtain ⟨d, e, d'⟩ := t
  dsimp only at hstep hinv
  subst hstep
  cases e with
  | build difficulty selected =>
    unfold DeviceThread.step
    dsimp only
    split
    next hrun hunit =>
      refine ⟨hinv.completed, ?_, by simp⟩
      rintro u hu
      cases hu
      rcases hinv.between hunit hrun with hone | hzero
      · exact ⟨0, rfl, by omega, Or.inl hone⟩
      · exact ⟨0, rfl, by omega, Or.inr hzero.symm⟩
    next => exact hinv
  | stop => exact ⟨hinv.completed, by simp [DeviceThread.step], by simp [DeviceThread.step]⟩
  | round r =>
    unfold DeviceThread.step
    dsimp only
    split
    next => exact hinv
    next u hunit =>
      obtain ⟨slot, hindex, hslot, hn⟩ := hinv.inLoop u hunit
      split
      next exit hend =>
        refine ⟨hinv.completed, by simp, ?_⟩
        intro _ _
        rcases hkeep with hone | hzero
        · exact Or.inl hone
        · have := hzero u r hunit rfl (round_left hend)
          refine hn.imp_right fun hn => ?_
          dsimp only
          omega
      next => exact hinv
      next work next hend =>
        obtain ⟨hwork, hnext⟩ := round_completed hend
        refine ⟨?_, ?_, by simp⟩
        · dsimp only
          rw [List.length_append, List.length_singleton, turns_succ, ← hinv.completed, hwork,
            hindex, slot_work h hslot hn]
        · rintro u' hu'
          cases hu'
          rw [hindex] at hnext
          simp only [DEVFEE_CYCLE] at hnext
          refine ⟨(slot + 1) % 1000, ?_, by omega, ?_⟩
          · rw [hnext]
            split_ifs <;> omega
          · refine hn.imp_right fun hn => ?_
            rw [List.length_append, List.length_singleton]
            omega

/-! ## The CPU pool -/

inductive WorkerPhase
  | idle
  /-- Past the checks of this round, not yet at the shared counter. -/
  | cleared
  | hashing
  | gone
deriving DecidableEq, Repr

/-- The workers of `run_worker`, their shared counter, and the batches started in the order
in which the counter hands out its numbers. -/
structure CpuPool where
  maxDifficulty : UInt32
  stop : Bool
  workSequence : UInt64
  workers : Nat → WorkerPhase
  started : List Work

def CpuPool.fresh (maxDifficulty : UInt32) : CpuPool :=
  ⟨maxDifficulty, false, 0, fun _ => .idle, []⟩

inductive CpuEvent
  /-- The loop head of a worker, with what it reads of the mining state. -/
  | check (worker : Nat) (running : Bool) (difficulty : UInt32) (paused : Bool)
  /-- `fetch_add` on the shared counter. -/
  | take (worker : Nat)
  /-- The batch ends; `phcOk` is false when a hit carries no digest. -/
  | finish (worker : Nat) (ok phcOk : Bool)
  | stop
deriving DecidableEq, Repr

def CpuPool.setWorker (p : CpuPool) (worker : Nat) (phase : WorkerPhase) : CpuPool :=
  { p with workers := fun i => if i = worker then phase else p.workers i }

/-- One step of one worker of the pool. -/
def CpuPool.step (identity : MiningIdentity) (p : CpuPool) : CpuEvent → CpuPool
  | .check worker running difficulty paused =>
    match p.workers worker with
    | .idle =>
      if p.stop ∨ ¬ running then p.setWorker worker .gone
      else if difficulty < MIN_ARGON2_CPU_DIFFICULTY then
        { p.setWorker worker .gone with stop := true }
      else if p.maxDifficulty > 0 ∧ difficulty > p.maxDifficulty then p
      else if paused then p
      else p.setWorker worker .cleared
    | _ => p
  | .take worker =>
    match p.workers worker with
    | .cleared =>
      { p.setWorker worker .hashing with
        workSequence := p.workSequence + 1
        started := p.started ++ [selectWork identity ((p.workSequence % 1000).toNat : Int)] }
    | _ => p
  | .finish worker ok phcOk =>
    match p.workers worker with
    | .hashing =>
      if !ok then { p.setWorker worker .gone with stop := true }
      else { p.setWorker worker .idle with stop := p.stop || !phcOk }
    | _ => p
  | .stop => { p with stop := true }

/-- The shared counter has not wrapped. -/
def Unwrapped (t : Trans CpuPool CpuEvent) : Prop := t.pre.started.length < 2 ^ 64

structure OnSequence (identity : MiningIdentity) (p : CpuPool) : Prop where
  counted : p.workSequence = UInt64.ofNat p.started.length
  started : p.started = turns (fun i : Nat => selectWork identity i) 1000 p.started.length

theorem onSequence_step {identity : MiningIdentity} {t : Trans CpuPool CpuEvent}
    (hstep : t.post = t.pre.step identity t.ev) (hinv : OnSequence identity t.pre)
    (hwrap : Unwrapped t) : OnSequence identity t.post := by
  obtain ⟨p, e, p'⟩ := t
  dsimp only [Unwrapped] at hstep hinv hwrap
  subst hstep
  cases e with
  | check worker running difficulty paused =>
    unfold CpuPool.step
    dsimp only
    split
    · split_ifs <;> exact ⟨hinv.counted, hinv.started⟩
    · exact hinv
  | finish worker ok phcOk =>
    unfold CpuPool.step
    dsimp only
    split
    · split_ifs <;> exact ⟨hinv.counted, hinv.started⟩
    · exact hinv
  | stop => exact ⟨hinv.counted, hinv.started⟩
  | take worker =>
    unfold CpuPool.step
    dsimp only
    split
    next =>
      have hslot : (p.workSequence % 1000).toNat = p.started.length % 1000 := by
        rw [hinv.counted, UInt64.toNat_mod, UInt64.toNat_ofNat_of_lt' hwrap]
        rfl
      refine ⟨?_, ?_⟩
      · dsimp only
        rw [hinv.counted, List.length_append, List.length_singleton, UInt64.ofNat_add]
        rfl
      · dsimp only
        rw [List.length_append, List.length_singleton, turns_succ, ← hinv.started, hslot]
    next => exact hinv

/-! ## The share over a run -/

/-- A GPU thread that gives up units only between two cycles pays the fee. -/
def GpuSharePaid (identity : MiningIdentity) : Prop :=
  ∀ es : List DeviceEvent,
    (∀ t ∈ trace (DeviceThread.step identity) .fresh es, KeepsCycle identity t) →
    ∀ d ∈ visited .fresh (trace (DeviceThread.step identity) .fresh es),
      FeeShare identity d.completed

/-- A CPU pool whose counter has not wrapped pays the fee. -/
def CpuSharePaid (identity : MiningIdentity) : Prop :=
  ∀ (maxDifficulty : UInt32) (es : List CpuEvent),
    (∀ t ∈ trace (CpuPool.step identity) (.fresh maxDifficulty) es, Unwrapped t) →
    ∀ p ∈ visited (.fresh maxDifficulty) (trace (CpuPool.step identity) (.fresh maxDifficulty) es),
      FeeShare identity p.started

theorem devfee_share_kept {identity : MiningIdentity} (h : Payable identity) :
    GpuSharePaid identity ∧ CpuSharePaid identity := by
  constructor
  · intro es hkeep d hd
    have hinv := ((Run.trace _ _ es).inv_of (fun _ hstep hI hC => onCycle_step h hstep hI hC)
      (onCycle_fresh identity) hkeep).1 d hd
    rw [hinv.completed]
    exact feeShare_turns h _
  · intro maxDifficulty es hwrap p hp
    have hfresh : OnSequence identity (.fresh maxDifficulty) := ⟨rfl, rfl⟩
    have hinv := ((Run.trace _ _ es).inv_of (fun _ hstep hI hC => onSequence_step hstep hI hC)
      hfresh hwrap).1 p hp
    rw [hinv.started]
    exact feeShare_turns h _

/-- One batch of every thousand is a fee batch. -/
def feeIdentity : MiningIdentity :=
  ⟨"0xe4bb184781bbc9c7004e8dafd4a9b49d203bc9bc",
    "0x24691E54aFafe2416a8252097C9Ca67557271475", "", 1, "", none⟩

theorem feeIdentity_payable : Payable feeIdentity := ⟨by decide, by decide, rfl⟩

theorem devfee_share_kept_one :
    Payable feeIdentity ∧ GpuSharePaid feeIdentity ∧ CpuSharePaid feeIdentity :=
  ⟨feeIdentity_payable, devfee_share_kept feeIdentity_payable⟩

/-- A unit mines one batch and the difficulty has moved. -/
def shortUnit : List DeviceEvent :=
  [.build 8 (some 1), .round ⟨8, false, true⟩, .round ⟨9, false, true⟩]

theorem shortUnits_completed (n : Nat) (completed : List Work) :
    (List.replicate n shortUnit).flatten.foldl (DeviceThread.step feeIdentity)
        ⟨true, none, completed⟩ =
      ⟨true, none, completed ++ List.replicate n feeIdentity.userWork⟩ := by
  induction n generalizing completed with
  | zero => simp
  | succ n ih =>
    rw [List.replicate_succ, List.flatten_cons, List.foldl_append]
    have hunit : shortUnit.foldl (DeviceThread.step feeIdentity) ⟨true, none, completed⟩ =
        ⟨true, none, completed ++ [feeIdentity.userWork]⟩ := rfl
    rw [hunit, ih, List.append_assoc, List.replicate_succ]
    rfl

/-- A thousand units of one batch each: no batch is a fee batch. -/
theorem rebuilds_pay_no_fee :
    Payable feeIdentity ∧
      ¬ FeeShare feeIdentity ((List.replicate 1000 shortUnit).flatten.foldl
        (DeviceThread.step feeIdentity) .fresh).completed := by
  refine ⟨feeIdentity_payable, fun h => ?_⟩
  rw [DeviceThread.fresh, shortUnits_completed 1000 []] at h
  have hlen : (([] ++ List.replicate 1000 feeIdentity.userWork).length : Int) = DEVFEE_CYCLE := by
    rw [List.nil_append, List.length_replicate]
    rfl
  have hdev := (h _ List.infix_rfl hlen).dev
  rw [List.nil_append, List.count_replicate,
    if_neg (by simpa using (devWork_ne_userWork feeIdentity).symm)] at hdev
  exact absurd hdev (by decide)

end TreeMiner
