import TreeMiner.Server.Carried

/-! Whether a lease that is paid for is served: while it is paid for, its task is dropped only
where the rig does not take it or a pause ends it. -/

namespace TreeMiner

open Lib

/-! ## What a command does to the rig's lease -/

namespace PlatformManager

variable {keccak256 : List UInt8 → Vector UInt8 32} {m : PlatformManager} {env : PlatformEnv}

theorem perform_assignTask_ready {task : AssignTask} (hwf : task.WellFormed keccak256)
    (h : m.Ready) :
    (m.perform keccak256 ⟨.assignTask task, env⟩).leases.current =
      some (task.lease env.monotonic) := by
  rcases @handleAssignTask_cases keccak256 m env task with hm | ⟨-, htaken, -⟩ | ⟨-, -, -, hl, -⟩
  · have := @handleAssignTask_takes keccak256 m env task h.1 h.2 hwf
    rw [hm, h.1] at this
    cases this
  · rw [h.2] at htaken
    cases htaken
  · exact hl

theorem perform_assignTask_refused {task : AssignTask} (h : ¬ m.Ready) :
    (m.perform keccak256 ⟨.assignTask task, env⟩).leases.current = m.leases.current := by
  rcases @handleAssignTask_cases keccak256 m env task with hm | ⟨-, -, hm⟩ | ⟨hs, hfree, -⟩
  · exact congrArg (·.leases.current) hm
  · simp only [perform, hm, transitionTo_leases]
  · exact absurd ⟨hs, hfree⟩ h

theorem perform_pause_current :
    (m.perform keccak256 ⟨.pause, env⟩).leases.current =
      if m.leases.hasActiveLease env.monotonic = true then none else m.leases.current := by
  rcases @handlePause_cases m env with ⟨hact, hm⟩ | ⟨hact, hm⟩
  · simp only [perform, hm, hact, transitionTo_leases, Bool.false_eq_true, if_false]
  · simp only [perform, hm, hact, transitionTo_leases, switchToSelfMining_leases,
      endLease_current, if_true]

theorem perform_release_current (release : Release) :
    (m.perform keccak256 ⟨.release release, env⟩).leases.current = m.leases.current ∨
    (m.perform keccak256 ⟨.release release, env⟩).leases.current = none ∧
      (release.leaseId = "" ∨ m.holds release.leaseId = true) := by
  simp only [perform, handleRelease]
  split_ifs with hid
  · exact Or.inl rfl
  cases hcur : m.leases.current with
  | none => exact Or.inl hcur
  | some current =>
    dsimp only
    split_ifs with hmismatch
    · exact Or.inl hcur
    · refine Or.inr ⟨by simp, ?_⟩
      by_cases hempty : release.leaseId = ""
      · exact Or.inl hempty
      · refine Or.inr (holds_iff.2 ⟨current, hcur, ?_⟩)
        simpa [hempty] using hmismatch

theorem perform_tick_current :
    (m.perform keccak256 ⟨.watchdogTick, env⟩).leases.current = m.leases.current ∨
    (m.perform keccak256 ⟨.watchdogTick, env⟩).leases.current = none ∧
      m.leases.isExpired env.monotonic = true := by
  rcases @watchdogTick_cases m env with ⟨-, hexp, hm⟩ | ⟨-, hl, -⟩ | ⟨-, -, hm⟩
  · exact Or.inr ⟨by simp [perform, hm], hexp⟩
  · exact Or.inl (congrArg LeaseManager.current hl)
  · exact Or.inl (congrArg (·.leases.current) hm)

theorem perform_registerAck_current (ack : RegisterAck) :
    (m.perform keccak256 ⟨.registerAck ack, env⟩).leases.current = m.leases.current := by
  simp only [perform, handleRegisterAck]
  split_ifs <;> simp

theorem perform_resume_current :
    (m.perform keccak256 ⟨.resume, env⟩).leases.current = m.leases.current := by
  simp only [perform, handleResume]
  split_ifs <;> simp

theorem perform_setConfig_current (config : SetConfig) :
    (m.perform keccak256 ⟨.setConfig config, env⟩).leases.current = m.leases.current :=
  congrArg LeaseManager.current (handleSetConfig_keeps config).2.1

/-- The lease stays or ends; a new one is that of the task. -/
theorem perform_current (op : PlatformOp) :
    (m.perform keccak256 ⟨op, env⟩).leases.current = m.leases.current ∨
    (m.perform keccak256 ⟨op, env⟩).leases.current = none ∨
    ∃ task, op = .assignTask task ∧
      (m.perform keccak256 ⟨op, env⟩).leases.current = some (task.lease env.monotonic) := by
  cases op with
  | registerAck ack => exact Or.inl (perform_registerAck_current ack)
  | resume => exact Or.inl perform_resume_current
  | setConfig config => exact Or.inl (perform_setConfig_current config)
  | assignTask task =>
    by_cases hready : m.Ready
    · rcases @handleAssignTask_cases keccak256 m env task with hm | ⟨-, -, hm⟩ | ⟨-, -, -, hl, -⟩
      · exact Or.inl (congrArg (·.leases.current) hm)
      · exact Or.inl (by simp [perform, hm])
      · exact Or.inr (Or.inr ⟨task, rfl, hl⟩)
    · exact Or.inl (perform_assignTask_refused hready)
  | release release => exact (perform_release_current release).imp_right fun h => Or.inl h.1
  | pause =>
    rw [perform_pause_current]
    split_ifs
    · exact Or.inr (Or.inl rfl)
    · exact Or.inl rfl
  | watchdogTick => exact perform_tick_current.imp_right fun h => Or.inl h.1

end PlatformManager

namespace Matching

open World

variable {keccak256 : List UInt8 → Vector UInt8 32}

/-! ## A command at the rig -/

/-- A command that carries a lease's task or not, to a rig that holds the lease or not. -/
structure Slot (due : Prop) (carries held after lost : Bool) : Prop where
  le : after.toNat ≤ carries.toNat + held.toNat
  keep : lost = false → due → carries.toNat + held.toNat ≤ after.toNat
  lose : lost = true → after.toNat < carries.toNat + held.toNat

theorem Slot.refused (due : Prop) (carries held : Bool) : Slot due carries held held carries := by
  refine ⟨Nat.le_add_left _ _, fun hlost _ => ?_, fun hlost => ?_⟩
  · rw [hlost, Bool.toNat_false, Nat.zero_add]
  · rw [hlost, Bool.toNat_true]
    omega

theorem Slot.taken (due : Prop) (carries : Bool) : Slot due carries false carries false :=
  ⟨le_rfl, fun _ _ => le_rfl, nofun⟩

theorem Slot.ended {due : Prop} {held : Bool} (h : due → held = false) :
    Slot due false held false false := by
  refine ⟨Nat.zero_le _, fun _ hdue => ?_, nofun⟩
  rw [h hdue]
  exact le_rfl

theorem Slot.paused (due : Prop) (held active : Bool) :
    Slot due false held (if active = true then false else held) (held && active) := by
  cases active with
  | true =>
    rw [if_pos rfl, Bool.and_true]
    refine ⟨Nat.zero_le _, fun hlost _ => ?_, fun hlost => ?_⟩
    · rw [hlost]
      exact le_rfl
    · rw [hlost]
      exact Nat.one_pos
  | false =>
    rw [if_neg Bool.false_ne_true, Bool.and_false]
    exact .refused due false held

theorem holds_congr {m m' : PlatformManager} (h : m'.leases.current = m.leases.current)
    (leaseId : String) : m'.holds leaseId = m.holds leaseId := by
  unfold PlatformManager.holds
  rw [h]

theorem holds_none {m : PlatformManager} (h : m.leases.current = none) (leaseId : String) :
    m.holds leaseId = false := by
  unfold PlatformManager.holds
  rw [h]
  rfl

section

variable {w : World keccak256} {sent : Sent}

/-- A command that comes too late is refused. -/
theorem misses_late (hlate : w.tooLate sent = true) (leaseId : String) :
    w.misses leaseId sent = carriesOp leaseId sent.op := by
  unfold World.misses carriesOp
  cases sent.op with
  | assignTask task => simp [hlate]
  | pause => simp [hlate]
  | _ => rfl

theorem Sound.not_due_of_released (h : Sound w) {release : Release} {leaseId : String}
    (hclosed : w.Closed release.leaseId)
    (hheld : release.leaseId = "" ∨ w.rig.holds release.leaseId = true)
    (hdue : w.Due leaseId) : w.rig.holds leaseId = false := by
  by_contra hholds
  obtain ⟨lease, hcur, hid⟩ := PlatformManager.holds_iff.1 (Bool.not_eq_false _ ▸ hholds)
  rcases hheld with hempty | hheld
  · exact hclosed.known.ne_empty hempty
  · obtain ⟨lease', hcur', hid'⟩ := PlatformManager.holds_iff.1 hheld
    obtain rfl := Option.some.inj (hcur.symm.trans hcur')
    rw [← hid', hid] at hclosed
    exact h.not_due_of_closed hclosed hdue

/-- A command that comes in time. -/
theorem Sound.slot (h : Sound w) (hop : SoundOp w sent.op) (htime : w.tooLate sent = false)
    (leaseId : String) :
    Slot (w.Due leaseId) (carriesOp leaseId sent.op) (w.rig.holds leaseId)
      ((w.rig.perform keccak256 ⟨sent.op, w.env⟩).holds leaseId) (w.misses leaseId sent) := by
  unfold World.misses
  cases hsent : sent.op with
  | assignTask task =>
    rw [hsent] at hop
    have hcarries : carriesOp leaseId (.assignTask task) = decide (task.leaseId = leaseId) := rfl
    dsimp only
    by_cases hready : w.rig.Ready
    · have hafter : (w.rig.perform keccak256 ⟨.assignTask task, w.env⟩).holds leaseId =
          decide (task.leaseId = leaseId) := by
        unfold PlatformManager.holds
        rw [PlatformManager.perform_assignTask_ready hop.wellFormed hready]
        rfl
      rw [hafter, hcarries, holds_none hready.2, htime, decide_eq_true hready]
      simpa using Slot.taken (w.Due leaseId) (decide (task.leaseId = leaseId))
    · rw [holds_congr (PlatformManager.perform_assignTask_refused hready), hcarries, htime,
        decide_eq_false hready]
      simpa using Slot.refused (w.Due leaseId) (decide (task.leaseId = leaseId))
        (w.rig.holds leaseId)
  | release release =>
    rw [hsent] at hop
    rcases w.rig.perform_release_current release with hcur | ⟨hcur, hheld⟩
    · rw [holds_congr hcur]
      exact .refused _ false _
    · rw [holds_none hcur]
      exact .ended (h.not_due_of_released hop hheld)
  | pause =>
    have hafter : (w.rig.perform keccak256 ⟨.pause, w.env⟩).holds leaseId =
        if w.rig.leases.hasActiveLease w.now = true then false else w.rig.holds leaseId := by
      have hcur := @PlatformManager.perform_pause_current keccak256 w.rig w.env
      cases hactive : w.rig.leases.hasActiveLease w.now with
      | true =>
        rw [show w.env.monotonic = w.now from rfl, hactive, if_pos rfl] at hcur
        exact holds_none hcur leaseId
      | false =>
        rw [show w.env.monotonic = w.now from rfl, hactive, if_neg Bool.false_ne_true] at hcur
        exact holds_congr hcur leaseId
    dsimp only
    rw [hafter, htime, Bool.not_false, Bool.true_and]
    exact .paused _ _ _
  | registerAck ack =>
    rw [holds_congr (PlatformManager.perform_registerAck_current ack)]
    exact .refused _ false _
  | resume =>
    rw [holds_congr PlatformManager.perform_resume_current]
    exact .refused _ false _
  | setConfig config =>
    rw [holds_congr (PlatformManager.perform_setConfig_current config)]
    exact .refused _ false _
  | watchdogTick =>
    rw [hsent] at hop
    exact hop.elim

theorem Sound.slot_deliver (h : Sound w) (hop : SoundOp w sent.op) (rest : List Sent)
    (leaseId : String) :
    Slot (w.Due leaseId) (carriesOp leaseId sent.op) (w.rig.holds leaseId)
      ((w.deliver sent rest).rig.holds leaseId) (w.misses leaseId sent) := by
  cases htime : w.tooLate sent with
  | true =>
    rw [misses_late htime]
    simp only [World.deliver, htime, if_true]
    exact .refused _ _ _
  | false =>
    simp only [World.deliver, htime, Bool.false_eq_true, if_false]
    exact h.slot hop htime leaseId

theorem copies_deliver {rest : List Sent} (hqueue : w.toRig = sent :: rest) (leaseId : String) :
    (w.deliver sent rest).copies leaseId +
        ((carriesOp leaseId sent.op).toNat + (w.rig.holds leaseId).toNat) =
      w.copies leaseId + ((w.deliver sent rest).rig.holds leaseId).toNat := by
  have hhead : (sent :: rest).countP (fun sent => carriesOp leaseId sent.op) =
      rest.countP (fun sent => carriesOp leaseId sent.op) + (carriesOp leaseId sent.op).toNat := by
    rw [List.countP_cons]
    cases carriesOp leaseId sent.op <;> rfl
  unfold World.copies
  rw [hqueue, hhead]
  simp only [World.deliver]
  omega

theorem Sound.deliver (h : Sound w) {rest : List Sent} (hqueue : w.toRig = sent :: rest) :
    Sound (w.deliver sent rest) ∧
      ∀ id, Passes w (w.deliver sent rest) id (w.misses id sent) := by
  have hg : Grows w (w.deliver sent rest) := .same rfl le_rfl
  have hop : SoundOp w sent.op := h.toRig sent (hqueue ▸ List.mem_cons_self)
  have hpass : ∀ id, Passes w (w.deliver sent rest) id (w.misses id sent) := by
    intro id
    have hcopies := copies_deliver hqueue id
    obtain ⟨hle, hkeep, hlose⟩ := h.slot_deliver hop rest id
    refine ⟨fun hknown => hknown.grows hg, by omega, due_of_same rfl le_rfl,
      fun hlost hdue => ?_, fun hlost => ?_⟩
    · have := hkeep hlost (due_of_same rfl le_rfl hdue)
      omega
    · have := hlose hlost
      omega
  have htied : (w.deliver sent rest).rig.Tied := by
    unfold World.deliver
    dsimp only
    split_ifs
    · exact h.tied
    · exact h.tied.step (PlatformManager.perform_effect _)
  refine ⟨h.step_of hg htied h.distinct (fun _ hmem => Or.inl hmem) (fun sent' hmem => ?_)
    (fun lease hcur => ?_) fun id => Or.inl ⟨_, hpass id⟩, hpass⟩
  · exact Or.inl (hqueue ▸ List.mem_cons_of_mem _ hmem)
  · unfold World.deliver at hcur
    dsimp only at hcur
    split_ifs at hcur
    · exact Or.inl hcur
    rcases @PlatformManager.perform_current keccak256 w.rig w.env sent.op with
      hsame | hnone | ⟨task, htask, hnew⟩
    · exact Or.inl (hsame ▸ hcur)
    · rw [hnone] at hcur
      cases hcur
    · rw [hnew, Option.some.injEq] at hcur
      subst hcur
      rw [htask] at hop
      exact Or.inr (Made.backed hop |>.grows hg)

/-! ## The rig on its own -/

theorem Sound.rig (h : Sound w) {m : PlatformManager} (htied : m.Tied)
    (hcur : m.leases.current = w.rig.leases.current ∨
      m.leases.current = none ∧ w.rig.leases.isExpired w.now = true) :
    Sound { w with rig := m } ∧ ∀ id, Passes w { w with rig := m } id false := by
  have hg : Grows w { w with rig := m } := .same rfl le_rfl
  have hpass : ∀ id, Passes w { w with rig := m } id false := by
    intro id
    have hslot : Slot (w.Due id) false (w.rig.holds id) (m.holds id) false := by
      rcases hcur with hsame | ⟨hnone, hexp⟩
      · rw [holds_congr hsame]
        exact .refused _ false _
      · rw [holds_none hnone]
        refine .ended fun hdue => ?_
        by_contra hholds
        obtain ⟨lease, hlease, rfl⟩ :=
          PlatformManager.holds_iff.1 (Bool.not_eq_false _ ▸ hholds)
        exact h.not_due_of_expired hlease hexp hdue
    obtain ⟨hle, hkeep, -⟩ := hslot
    rw [Bool.toNat_false, Nat.zero_add] at hle hkeep
    refine ⟨fun hknown => hknown.grows hg, ?_, due_of_same rfl le_rfl, fun _ hdue => ?_, nofun⟩
    · exact Nat.add_le_add_left hle _
    · exact Nat.add_le_add_left (hkeep rfl (due_of_same rfl le_rfl hdue)) _
  refine ⟨h.step_of hg htied h.distinct (fun _ hmem => Or.inl hmem)
    (fun _ hmem => Or.inl hmem) (fun lease hlease => ?_) fun id => Or.inl ⟨_, hpass id⟩, hpass⟩
  rcases hcur with hsame | ⟨hnone, -⟩
  · exact Or.inl (hsame ▸ hlease)
  · rw [show ({ w with rig := m } : World keccak256).rig = m from rfl, hnone] at hlease
    cases hlease

theorem Sound.advance (h : Sound w) (nanos : Nat) :
    Sound { w with now := w.now + nanos } ∧
      ∀ id, Passes w { w with now := w.now + nanos } id false := by
  have hg : Grows w { w with now := w.now + nanos } := .same rfl (Nat.le_add_right _ _)
  have hpass : ∀ id, Passes w { w with now := w.now + nanos } id false :=
    fun id => .same hg rfl (due_of_same rfl (Nat.le_add_right _ _))
  exact ⟨h.step_of hg h.tied h.distinct (fun _ hmem => Or.inl hmem) (fun _ hmem => Or.inl hmem)
    (fun _ hcur => Or.inl hcur) fun id => Or.inl ⟨_, hpass id⟩, hpass⟩

end

/-! ## One step -/

section

variable {w : World keccak256}

theorem loses_deliver {sent : Sent} {rest : List Sent} (hqueue : w.toRig = sent :: rest)
    (leaseId : String) (w' : World keccak256) :
    loses leaseId ⟨w, .deliver, w'⟩ = w.misses leaseId sent := by
  unfold loses
  rw [hqueue]

theorem Sound.refl_passes (h : Sound w) : Sound w ∧ ∀ id, Passes w w id false :=
  ⟨h, fun _ => .same (.same rfl le_rfl) rfl id⟩

theorem Sound.spawn_passes (h : Sound w) {hd : Handler keccak256} (hsound : hd.Sound w)
    (hcarries : ∀ id, hd.carries id = false) :
    Sound (w.spawn hd) ∧ ∀ id, Passes w (w.spawn hd) id false :=
  ⟨h.spawn hsound hcarries, Matching.spawn_passes hcarries⟩

theorem Sound.receive (h : Sound w) :
    Sound (w.step .receive) ∧ ∀ id, Passes w (w.step .receive) id false := by
  have htaken : Frame w { w with handled := w.handled + 1 } := ⟨rfl, rfl, rfl, rfl, rfl⟩
  have hdone := h.frame htaken
  have hspawn : ∀ hd : Handler keccak256,
      hd.Sound { w with handled := w.handled + 1 } → (∀ id, hd.carries id = false) →
      Sound ({ w with handled := w.handled + 1 }.spawn hd) ∧
        ∀ id, Passes w ({ w with handled := w.handled + 1 }.spawn hd) id false := by
    intro hd hsound hcarries
    obtain ⟨hs, hpass⟩ := hdone.spawn_passes hsound hcarries
    exact ⟨hs, fun id => (htaken.passes id).trans (hpass id)⟩
  simp only [World.step]
  split_ifs
  · exact h.refl_passes
  cases w.rig.sent[w.handled]? with
  | none => exact h.refl_passes
  | some msg =>
    cases msg with
    | register ethAddress gpus => exact hspawn _ trivial fun _ => rfl
    | statusUpdate state leaseId =>
      simp only [Handler.ofMessage]
      split_ifs
      · exact ⟨hdone, htaken.passes⟩
      · exact hspawn _ trivial fun _ => rfl
    | offline => exact hspawn _ trivial fun _ => rfl
    | heartbeat difficulty address keyPrefix blockPattern => exact ⟨hdone, htaken.passes⟩
    | blockFound leaseId hash key account attempts => exact ⟨hdone, htaken.passes⟩

theorem Sound.announce (h : Sound w) :
    Sound (w.step .announce) ∧ ∀ id, Passes w (w.step .announce) id false := by
  refine h.rig (h.tied.step (.kept ?_ ?_ ?_)) (Or.inl ?_)
  all_goals simp [PlatformManager.announce]

theorem Sound.step (h : Sound w) (e : Event keccak256) :
    Sound (w.step e) ∧ ∀ id, Passes w (w.step e) id (loses id ⟨w, e, w.step e⟩) ∨
      Begins w (w.step e) id ∧ loses id ⟨w, e, w.step e⟩ = false := by
  have hquiet : ∀ {w'}, Sound w' ∧ (∀ id, Passes w w' id false) →
      Sound w' ∧ ∀ id, Passes w w' id false ∨ Begins w w' id ∧ false = false :=
    fun hs => ⟨hs.1, fun id => Or.inl (hs.2 id)⟩
  cases e with
  | rent task => exact hquiet (h.spawn_passes trivial fun _ => rfl)
  | stopLease leaseId => exact hquiet (h.spawn_passes trivial fun _ => rfl)
  | sweep =>
    refine hquiet ?_
    simp only [World.step]
    split_ifs
    · exact h.refl_passes
    · exact h.spawn_passes (fun _ => known_of_expired) fun _ => rfl
  | command command params =>
    refine hquiet ?_
    simp only [World.step]
    split_ifs
    · cases controlPayload (command.newState params) params.config with
      | none => exact h.refl_passes
      | some payload => exact h.spawn_passes trivial fun _ => rfl
    · exact h.refl_passes
  | receive => exact hquiet h.receive
  | run i =>
    cases hi : w.handlers[i]?.join with
    | none =>
      refine hquiet ?_
      simp only [World.step, hi]
      exact h.refl_passes
    | some hd =>
      obtain ⟨hs, hpass⟩ := h.run hi
      simp only [World.step, hi]
      exact ⟨hs, fun id => (hpass id).imp_right fun hbegin => ⟨hbegin, rfl⟩⟩
  | deliver =>
    cases hqueue : w.toRig with
    | nil =>
      have hstay : w.step .deliver = w := by simp only [World.step, hqueue]
      rw [hstay]
      refine ⟨h, fun id => Or.inl ?_⟩
      have hkept : loses id (⟨w, .deliver, w⟩ : Trans (World keccak256) (Event keccak256)) =
          false := by
        unfold loses
        rw [hqueue]
      rw [hkept]
      exact h.refl_passes.2 id
    | cons sent rest =>
      obtain ⟨hs, hpass⟩ := h.deliver hqueue
      have hstep : w.step .deliver = w.deliver sent rest := by simp only [World.step, hqueue]
      rw [hstep]
      refine ⟨hs, fun id => Or.inl ?_⟩
      rw [loses_deliver hqueue]
      exact hpass id
  | watchdogTick =>
    refine hquiet (h.rig (h.tied.step (PlatformManager.perform_effect _)) ?_)
    exact PlatformManager.perform_tick_current
  | announce => exact hquiet h.announce
  | advance nanos => exact hquiet (h.advance nanos)

end

/-! ## A whole run -/

theorem sound_start (o : Outset keccak256) : Sound o.start := by
  have hfree : o.start.rig.leases.current = none := by
    simp [Outset.start, PlatformManager.started, PlatformManager.start, PlatformManager.announce,
      PlatformManager.new, LeaseManager.new]
  refine ⟨PlatformManager.tied_started _ _ _ _, o.distinct,
    fun h hh => absurd hh List.not_mem_nil, fun sent hsent => absurd hsent List.not_mem_nil,
    fun lease hcur => ?_, fun id => ?_⟩
  · rw [hfree] at hcur
    cases hcur
  · unfold World.copies
    rw [holds_none hfree]
    exact Nat.zero_le _

theorem run_sound (o : Outset keccak256) (events : List (Event keccak256)) :
    Sound (events.foldl World.step o.start) := by
  refine ((Run.trace World.step o.start events).inv (I := Sound) ?_ (sound_start o)).2.2
  rintro w e w' rfl h
  exact (h.step e).1

/-- At the end of a run the task of a due lease is still in the world, unless it was lost. -/
theorem copies_iff (o : Outset keccak256) (events : List (Event keccak256)) {leaseId : String}
    (hdue : (events.foldl World.step o.start).Due leaseId) :
    1 ≤ (events.foldl World.step o.start).copies leaseId ↔
      ∀ t ∈ trace World.step o.start events, ¬ loses leaseId t = true := by
  refine (Run.trace World.step o.start events).kept_iff (I := Sound)
    (D := fun w => w.Due leaseId) (K := fun w => 1 ≤ w.copies leaseId)
    (G := fun w => w.Known leaseId ∧ w.copies leaseId = 0) ?_ ?_ ?_ ?_ ?_ (sound_start o) ?_ hdue
  · rintro w e w' rfl h
    exact (h.step e).1
  · rintro ⟨w, e, w'⟩ hstep h hkept hpre hpost
    dsimp only at hstep h hpre hpost ⊢
    subst hstep
    rcases (h.step e).2 leaseId with hpass | ⟨hbegin, -⟩
    · exact (hpre (hpass.due hpost)).trans (hpass.keep (Bool.not_eq_true _ ▸ hkept) hpost)
    · exact hbegin.once.ge
  · rintro ⟨w, e, w'⟩ hstep h hlost
    dsimp only at hstep h ⊢
    subst hstep
    rcases (h.step e).2 leaseId with hpass | ⟨-, hkept⟩
    · have hless := hpass.lose hlost
      have hsingle := h.single leaseId
      exact ⟨hpass.known (h.known (by omega)), by omega⟩
    · rw [hlost] at hkept
      cases hkept
  · rintro w e w' rfl h ⟨hknown, hnone⟩
    rcases (h.step e).2 leaseId with hpass | ⟨hbegin, -⟩
    · have hle := hpass.le
      exact ⟨hpass.known hknown, by omega⟩
    · exact absurd hknown hbegin.fresh
  · rintro w ⟨-, hnone⟩ hkept
    omega
  · rintro ⟨row, hrow, -, hactive, -⟩
    exact absurd hactive (o.closed row hrow)

/-! ## Served -/

/-- The rig holds the lease and mines for its consumer. -/
def Serves (m : PlatformManager) (task : AssignTask) : Prop :=
  ∃ lease ∈ m.leases.current, lease.leaseId = task.leaseId ∧
    m.coordinator.context.mode = .platformMining ∧
    m.coordinator.context.address = task.consumerAddress ∧
    m.coordinator.context.keyPrefix = task.keyPrefix

instance (m : PlatformManager) (task : AssignTask) : Decidable (Serves m task) :=
  inferInstanceAs (Decidable (∃ lease ∈ m.leases.current, _))

theorem Sound.serves_iff {w : World keccak256} (h : Sound w) {row : LeaseRow keccak256}
    (hrow : row ∈ w.leases) : Serves w.rig row.task.1 ↔ w.rig.holds row.leaseId = true := by
  rw [PlatformManager.holds_iff]
  constructor
  · rintro ⟨lease, hcur, hid, -⟩
    exact ⟨lease, hcur, hid⟩
  · rintro ⟨lease, hcur, hid⟩
    obtain ⟨row', hrow', hlease, -⟩ := h.held lease hcur
    have heq : row = row' :=
      h.row_eq hrow hrow' (hid.symm.trans (congrArg LeaseInfo.leaseId hlease))
    subst heq
    have hcontext := (h.tied.held lease hcur).2
    refine ⟨lease, hcur, hid, ?_, ?_, ?_⟩
    · rw [hcontext]
      rfl
    · rw [hcontext]
      exact congrArg LeaseInfo.consumerAddress hlease
    · rw [hcontext]
      exact congrArg LeaseInfo.keyPrefix hlease

theorem quiet_copies {w : World keccak256} (h : w.Quiet) (leaseId : String) :
    w.copies leaseId = (w.rig.holds leaseId).toNat := by
  obtain ⟨hqueue, -, hhandlers⟩ := h
  have hnone : w.handlers.countP (fun h => h.any (Handler.carries leaseId)) = 0 := by
    refine List.countP_eq_zero.2 fun o ho => ?_
    rw [hhandlers o ho]
    simp
  unfold World.copies
  rw [hnone, hqueue, List.countP_nil, Nat.zero_add]

/-- In every state of every run with no message in flight and no handler running: the leases
that are paid for are all served if and only if none of them was lost on the way. -/
theorem billed_leases_served_iff (o : Outset keccak256) (events : List (Event keccak256)) :
    let w := events.foldl World.step o.start
    w.Quiet →
      ((∀ row ∈ w.leases, w.Billed row → Serves w.rig row.task.1) ↔
        ∀ row ∈ w.leases, w.Billed row →
          ∀ t ∈ trace World.step o.start events, ¬ loses row.leaseId t = true) := by
  intro w hquiet
  refine forall₂_congr fun row hrow => forall_congr' fun hbilled => ?_
  rw [(run_sound o events).serves_iff hrow, ← copies_iff o events ⟨row, hrow, rfl, hbilled⟩,
    quiet_copies hquiet]
  cases w.rig.holds row.leaseId <;> simp

instance (w : World keccak256) : Decidable w.Quiet := inferInstanceAs (Decidable (_ ∧ _ ∧ _))

/-! Runs of a rig with one lease after another. -/

theorem minuteTask_wellFormed : minuteTask.WellFormed flatKeccak := by
  unfold AssignTask.WellFormed
  decide

def minuteLease (leaseId : String) (h : isSafeIdentifier leaseId 1 MAX_LEASE_ID_LEN = true) :
    ValidTask flatKeccak :=
  ⟨{ minuteTask with leaseId }, h, minuteTask_wellFormed.2⟩

def firstLease : ValidTask flatKeccak := minuteLease "lease-1" (by decide)

def secondLease : ValidTask flatKeccak := minuteLease "lease-2" (by decide)

def emptyPlatform : Outset flatKeccak where
  lifetimeSec := 60
  now := 0
  worker := none
  leases := []
  config := ⟨"rig-1", operatorBase.userAddress, []⟩
  base := operatorBase
  difficulty := 60
  distinct := List.nodup_nil
  closed := nofun

/-- The rig registers, and the first lease is rented and reaches it. -/
def rented : List (Event flatKeccak) :=
  [.receive, .run 0, .run 0, .deliver, .receive, .run 1,
    .rent firstLease, .run 2, .run 2, .run 2, .run 2, .run 2, .run 2, .deliver,
    .receive, .run 3, .receive, .run 4]

theorem rented_served :
    let w := rented.foldl World.step emptyPlatform.start
    w.Quiet ∧ w.leases ≠ [] ∧ ∀ row ∈ w.leases, w.Billed row ∧ Serves w.rig row.task.1 := by
  have hquiet : (rented.foldl World.step emptyPlatform.start).Quiet := by decide
  have hbilled : ∀ row ∈ (rented.foldl World.step emptyPlatform.start).leases,
      (rented.foldl World.step emptyPlatform.start).Billed row := by decide
  refine ⟨hquiet, by decide, fun row hrow => ⟨hbilled row hrow, ?_⟩⟩
  exact (billed_leases_served_iff emptyPlatform rented hquiet).2 (by decide) row hrow
    (hbilled row hrow)

/-- The rig's owner takes it off the market in the middle of the lease. -/
def unlisted : List (Event flatKeccak) :=
  rented ++ [.command .unlist ⟨none, ⟨none, none, none, none⟩⟩, .run 5, .run 5, .run 5, .deliver,
    .receive, .run 6]

/-- The first lease is stopped and the second rented before its `release` is published. -/
def overtaken : List (Event flatKeccak) :=
  rented ++ [.stopLease "lease-1", .run 5, .run 5, .run 5, .run 5,
    .rent secondLease, .run 6, .run 6, .run 6, .run 6, .run 6, .run 6, .run 5, .deliver, .deliver,
    .receive, .run 7, .receive, .run 8]

/-- At the end of both runs a lease is paid for and the rig holds none. -/
theorem billed_lease_not_served :
    (let w := unlisted.foldl World.step emptyPlatform.start
     w.Quiet ∧ ∃ row ∈ w.leases, w.Billed row ∧ ¬ Serves w.rig row.task.1) ∧
    (let w := overtaken.foldl World.step emptyPlatform.start
     w.Quiet ∧ ∃ row ∈ w.leases, w.Billed row ∧ ¬ Serves w.rig row.task.1) := by
  decide

end Matching

end TreeMiner
