import TreeMiner.Server.Matching

/-! Where the task of a lease is: with the handler that will publish it, on its way, or held by
the rig, and in one of these places at a time. What a handler's turn does to the leases and to
their tasks. -/

namespace TreeMiner

open Lib

namespace PlatformManager

/-- The rig takes a well-formed task. -/
def Ready (m : PlatformManager) : Prop := m.state = .available ∧ m.leases.current = none

instance (m : PlatformManager) : Decidable m.Ready := inferInstanceAs (Decidable (_ ∧ _))

def holds (m : PlatformManager) (leaseId : String) : Bool :=
  m.leases.current.any fun lease => lease.leaseId = leaseId

theorem holds_iff {m : PlatformManager} {leaseId : String} :
    m.holds leaseId = true ↔ ∃ lease, m.leases.current = some lease ∧ lease.leaseId = leaseId := by
  unfold holds
  cases m.leases.current with
  | none => simp
  | some lease => simp

end PlatformManager

namespace Matching

variable {keccak256 : List UInt8 → Vector UInt8 32}

/-! ## Where the task of a lease is -/

/-- The row is written and the task not yet published. -/
def Handler.carries (leaseId : String) : Handler keccak256 → Bool
  | .rent task .update => task.leaseId = leaseId
  | .rent task .publish => task.leaseId = leaseId
  | _ => false

def carriesOp (leaseId : String) : PlatformOp → Bool
  | .assignTask task => task.leaseId = leaseId
  | _ => false

namespace World

def copies (w : World keccak256) (leaseId : String) : Nat :=
  w.handlers.countP (fun h => h.any (Handler.carries leaseId)) +
    w.toRig.countP (fun sent => carriesOp leaseId sent.op) + (w.rig.holds leaseId).toNat

/-- The command takes the task of the lease, or the rig's lease itself, out of the world. -/
def misses (w : World keccak256) (leaseId : String) (sent : Sent) : Bool :=
  match sent.op with
  | .assignTask task => task.leaseId = leaseId && (w.tooLate sent || !decide w.rig.Ready)
  | .pause => !w.tooLate sent && w.rig.holds leaseId && w.rig.leases.hasActiveLease w.now
  | _ => false

end World

/-- The rig does not take the lease's task, or it pauses while the lease is running. -/
def loses (leaseId : String) (t : Trans (World keccak256) (Event keccak256)) : Bool :=
  match t.ev, t.pre.toRig with
  | .deliver, sent :: _ => t.pre.misses leaseId sent
  | _, _ => false

/-! ## The leases of the platform -/

namespace World

def Known (w : World keccak256) (leaseId : String) : Prop :=
  ∃ row ∈ w.leases, row.leaseId = leaseId

def Closed (w : World keccak256) (leaseId : String) : Prop :=
  ∃ row ∈ w.leases, row.leaseId = leaseId ∧ row.state ≠ .active

def Made (w : World keccak256) (task : AssignTask) : Prop :=
  ∃ row ∈ w.leases, row.task.1 = task ∧ row.createdAt ≤ w.now

/-- The rig's lease is one of the platform's, and not older than its row. -/
def Backed (w : World keccak256) (lease : LeaseInfo) : Prop :=
  ∃ row ∈ w.leases, lease = row.task.1.lease lease.startedAt ∧ row.createdAt ≤ lease.startedAt

/-- The lease is paid for. -/
def Due (w : World keccak256) (leaseId : String) : Prop :=
  ∃ row ∈ w.leases, row.leaseId = leaseId ∧ w.Billed row

/-- Rows stay, and a closed one stays closed. -/
structure Grows (w w' : World keccak256) : Prop where
  now : w.now ≤ w'.now
  rows : ∀ row ∈ w.leases, ∃ row' ∈ w'.leases, row'.task = row.task ∧
    row'.createdAt = row.createdAt ∧ (row.state ≠ .active → row'.state ≠ .active)

variable {w w' : World keccak256} {leaseId : String}

theorem Grows.same (hleases : w'.leases = w.leases) (hnow : w.now ≤ w'.now) : Grows w w' :=
  ⟨hnow, fun row hrow => ⟨row, hleases ▸ hrow, rfl, rfl, id⟩⟩

theorem Grows.create (task : ValidTask keccak256) :
    Grows w { w with leases := w.leases ++ [⟨task, .active, w.now⟩] } :=
  ⟨le_rfl, fun row hrow => ⟨row, List.mem_append_left _ hrow, rfl, rfl, id⟩⟩

theorem Grows.complete (w : World keccak256) (leaseId : String) : Grows w (w.complete leaseId) := by
  refine ⟨le_rfl, fun row hrow => ⟨_, List.mem_map_of_mem hrow, ?_⟩⟩
  split_ifs
  · exact ⟨rfl, rfl, fun _ => by simp⟩
  · exact ⟨rfl, rfl, id⟩

theorem Known.grows (hg : Grows w w') (h : w.Known leaseId) : w'.Known leaseId := by
  obtain ⟨row, hrow, rfl⟩ := h
  obtain ⟨row', hrow', htask, -⟩ := hg.rows row hrow
  exact ⟨row', hrow', congrArg ValidTask.leaseId htask⟩

theorem Closed.grows (hg : Grows w w') (h : w.Closed leaseId) : w'.Closed leaseId := by
  obtain ⟨row, hrow, rfl, hstate⟩ := h
  obtain ⟨row', hrow', htask, -, hclosed⟩ := hg.rows row hrow
  exact ⟨row', hrow', congrArg ValidTask.leaseId htask, hclosed hstate⟩

theorem Made.grows {task : AssignTask} (hg : Grows w w') (h : w.Made task) : w'.Made task := by
  obtain ⟨row, hrow, rfl, hcreated⟩ := h
  obtain ⟨row', hrow', htask, hat, -⟩ := hg.rows row hrow
  exact ⟨row', hrow', congrArg Subtype.val htask, hat ▸ hcreated.trans hg.now⟩

theorem Backed.grows {lease : LeaseInfo} (hg : Grows w w') (h : w.Backed lease) :
    w'.Backed lease := by
  obtain ⟨row, hrow, hlease, hcreated⟩ := h
  obtain ⟨row', hrow', htask, hat, -⟩ := hg.rows row hrow
  exact ⟨row', hrow', by rw [htask]; exact hlease, hat ▸ hcreated⟩

theorem Closed.known (h : w.Closed leaseId) : w.Known leaseId := by
  obtain ⟨row, hrow, hid, -⟩ := h
  exact ⟨row, hrow, hid⟩

theorem Made.known {task : AssignTask} (h : w.Made task) : w.Known task.leaseId := by
  obtain ⟨row, hrow, rfl, -⟩ := h
  exact ⟨row, hrow, rfl⟩

theorem Made.wellFormed {task : AssignTask} (h : w.Made task) : task.WellFormed keccak256 := by
  obtain ⟨row, -, rfl, -⟩ := h
  exact row.task.2

theorem Made.backed {task : AssignTask} (h : w.Made task) : w.Backed (task.lease w.now) := by
  obtain ⟨row, hrow, rfl, hcreated⟩ := h
  exact ⟨row, hrow, rfl, hcreated⟩

theorem Backed.known {lease : LeaseInfo} (h : w.Backed lease) : w.Known lease.leaseId := by
  obtain ⟨row, hrow, hlease, -⟩ := h
  exact ⟨row, hrow, (congrArg LeaseInfo.leaseId hlease).symm⟩

/-- No lease id is empty. -/
theorem Known.ne_empty (h : w.Known leaseId) : leaseId ≠ "" := by
  obtain ⟨row, -, rfl⟩ := h
  intro hempty
  have hsafe := row.task.2.1
  rw [show row.task.1.leaseId = "" from hempty] at hsafe
  exact absurd hsafe (by decide)

end World

/-! ## A handler's step -/

open World

/-- What a handler has already seen or written. -/
def Handler.Sound (w : World keccak256) : Handler keccak256 → Prop
  | .rent task .update => w.Made task.1
  | .rent task .publish => w.Made task.1
  | .stop leaseId .complete => w.Known leaseId
  | .stop leaseId .free => w.Closed leaseId
  | .stop leaseId .publish => w.Closed leaseId
  | .sweep expired .complete => ∀ leaseId ∈ expired, w.Known leaseId
  | .sweep [] _ => True
  | .sweep (leaseId :: rest) _ => w.Closed leaseId ∧ ∀ leaseId ∈ rest, w.Known leaseId
  | _ => True

def SoundOp (w : World keccak256) : PlatformOp → Prop
  | .assignTask task => w.Made task
  | .release release => w.Closed release.leaseId
  | .watchdogTick => False
  | _ => True

theorem Handler.Sound.grows {w w' : World keccak256} {h : Handler keccak256} (hg : Grows w w')
    (hs : h.Sound w) : h.Sound w' := by
  cases h with
  | register pc => trivial
  | statusUpdate state => trivial
  | rent task pc =>
    cases pc with
    | update => exact Made.grows hg hs
    | publish => exact Made.grows hg hs
    | _ => trivial
  | stop leaseId pc =>
    cases pc with
    | complete => exact Known.grows hg hs
    | free => exact Closed.grows hg hs
    | publish => exact Closed.grows hg hs
    | _ => trivial
  | sweep expired pc =>
    cases pc with
    | complete => exact fun id hid => (hs id hid).grows hg
    | free =>
      cases expired with
      | nil => trivial
      | cons id rest => exact ⟨hs.1.grows hg, fun id hid => (hs.2 id hid).grows hg⟩
    | publish =>
      cases expired with
      | nil => trivial
      | cons id rest => exact ⟨hs.1.grows hg, fun id hid => (hs.2 id hid).grows hg⟩
  | command newState payload pc => trivial

theorem SoundOp.grows {w w' : World keccak256} {op : PlatformOp} (hg : Grows w w')
    (hs : SoundOp w op) : SoundOp w' op := by
  cases op with
  | assignTask task => exact Made.grows hg hs
  | release release => exact Closed.grows hg hs
  | watchdogTick => exact hs
  | _ => trivial

/-- All but the worker's row, the lock and the messages taken. -/
structure Frame (w w' : World keccak256) : Prop where
  now : w'.now = w.now
  leases : w'.leases = w.leases
  handlers : w'.handlers = w.handlers
  toRig : w'.toRig = w.toRig
  rig : w'.rig = w.rig

theorem Frame.grows {w w' : World keccak256} (h : Frame w w') : Grows w w' :=
  .same h.leases h.now.ge

/-- What a handler's step does: nothing that matters here, a lease created, a lease closed, or a
command published. -/
inductive Handler.Moved (w : World keccak256) (h : Handler keccak256) :
    Option (Handler keccak256) → World keccak256 → Prop
  | silent {next : Option (Handler keccak256)} {w' : World keccak256} (hw : Frame w w')
      (hsound : h.Sound w → ∀ h' ∈ next, h'.Sound w)
      (hcarries : ∀ id, next.any (carries id) = h.carries id) : Moved w h next w'
  | created {task : ValidTask keccak256} (hh : h = .rent task .create)
      (hfresh : ¬ w.Known task.leaseId) : Moved w h (some (.rent task .update))
        { w with leases := w.leases ++ [⟨task, .active, w.now⟩] }
  | completed {leaseId : String} {next : Option (Handler keccak256)}
      (hsound : h.Sound w → ∀ h' ∈ next, h'.Sound (w.complete leaseId))
      (hcarries : ∀ id, next.any (carries id) = h.carries id) :
      Moved w h next (w.complete leaseId)
  | published {op : PlatformOp} {next : Option (Handler keccak256)}
      (hsound : h.Sound w → SoundOp w op ∧ ∀ h' ∈ next, h'.Sound w)
      (hcarries : ∀ id, (next.any (carries id)).toNat + (carriesOp id op).toNat =
        (h.carries id).toNat) : Moved w h next (w.publish op)

theorem closed_complete {w : World keccak256} {leaseId : String} (h : w.Known leaseId) :
    (w.complete leaseId).Closed leaseId := by
  obtain ⟨row, hrow, hid⟩ := h
  refine ⟨_, List.mem_map_of_mem hrow, ?_⟩
  rw [if_pos hid]
  exact ⟨hid, by simp⟩

theorem createLease_eq {w w' : World keccak256} {task : ValidTask keccak256}
    (h : w.createLease task = some w') :
    ¬ w.Known task.leaseId ∧ w' = { w with leases := w.leases ++ [⟨task, .active, w.now⟩] } := by
  unfold World.createLease at h
  split_ifs at h with htaken
  simp only [Bool.or_eq_true, List.any_eq_true, decide_eq_true_eq, not_or, not_exists,
    not_and] at htaken
  refine ⟨?_, (Option.some.inj h).symm⟩
  rintro ⟨row, hrow, hid⟩
  exact htaken.1 row hrow hid

theorem known_of_expired {w : World keccak256} {leaseId : String} (h : leaseId ∈ w.expired) :
    w.Known leaseId := by
  obtain ⟨row, hrow, hid⟩ := List.mem_map.1 h
  exact ⟨row, (List.mem_filter.1 hrow).1, hid⟩

namespace Handler

variable {w w' : World keccak256} {h h' : Handler keccak256}

theorem Moved.goes (hw : Frame w w') (hsound : h.Sound w → h'.Sound w)
    (hcarries : ∀ id, h'.carries id = h.carries id) : Moved w h (some h') w' := by
  refine .silent hw (fun hs next hnext => ?_) hcarries
  cases hnext
  exact hsound hs

theorem Moved.ends (hw : Frame w w') (hcarries : ∀ id, h.carries id = false) :
    Moved w h none w' :=
  .silent hw (fun _ => nofun) fun id => (hcarries id).symm

theorem Moved.closes {leaseId : String} (hsound : h.Sound w → h'.Sound (w.complete leaseId))
    (hcarries : ∀ id, h'.carries id = h.carries id) :
    Moved w h (some h') (w.complete leaseId) := by
  refine .completed (fun hs next hnext => ?_) hcarries
  cases hnext
  exact hsound hs

theorem moved (w : World keccak256) (h : Handler keccak256) :
    h.Moved w (h.step w).1 (h.step w).2 := by
  have hsame : Frame w w := ⟨rfl, rfl, rfl, rfl, rfl⟩
  have hworker : ∀ state, Frame w (w.setWorker state) := fun _ => ⟨rfl, rfl, rfl, rfl, rfl⟩
  have hrelease : Frame w w.release := ⟨rfl, rfl, rfl, rfl, rfl⟩
  have hacquire : Frame w w.acquire := ⟨rfl, rfl, rfl, rfl, rfl⟩
  have hfree : ∀ state, Frame w (w.setWorker state).release := fun _ => ⟨rfl, rfl, rfl, rfl, rfl⟩
  cases h with
  | register pc =>
    cases pc with
    | upsert => exact .goes ⟨rfl, rfl, rfl, rfl, rfl⟩ id fun _ => rfl
    | acknowledge => exact .published (fun _ => ⟨trivial, nofun⟩) fun _ => rfl
  | statusUpdate state => exact .ends (hworker state) fun _ => rfl
  | rent task pc =>
    cases pc with
    | acquire =>
      simp only [step]
      split_ifs
      · exact .goes hsame id fun _ => rfl
      · exact .goes hacquire id fun _ => rfl
    | getWorker => exact .goes hsame id fun _ => rfl
    | getActive state =>
      simp only [step]
      split_ifs
      · exact .goes hsame id fun _ => rfl
      · exact .ends hrelease fun _ => rfl
    | create =>
      simp only [step]
      cases hcreate : w.createLease task with
      | none => exact .ends hrelease fun _ => rfl
      | some w' =>
        obtain ⟨hfresh, rfl⟩ := createLease_eq hcreate
        exact .created rfl hfresh
    | update => exact .goes (hfree _) id fun _ => rfl
    | publish => exact .published (fun hs => ⟨hs, nofun⟩) fun _ => Nat.zero_add _
  | stop leaseId pc =>
    cases pc with
    | acquire =>
      simp only [step]
      split_ifs
      · exact .goes hsame id fun _ => rfl
      · exact .goes hacquire id fun _ => rfl
    | get =>
      simp only [step]
      split_ifs with hactive
      · obtain ⟨row, hrow, hrow'⟩ := List.any_eq_true.1 hactive
        simp only [Bool.and_eq_true, decide_eq_true_eq] at hrow'
        exact .goes hsame (fun _ => ⟨row, hrow, hrow'.1⟩) fun _ => rfl
      · exact .ends hrelease fun _ => rfl
    | complete => exact .closes closed_complete fun _ => rfl
    | free => exact .goes (hfree _) id fun _ => rfl
    | publish => exact .published (fun hs => ⟨hs, nofun⟩) fun _ => rfl
  | sweep expired pc =>
    cases expired with
    | nil => exact .ends hsame fun _ => rfl
    | cons leaseId rest =>
      cases pc with
      | complete =>
        refine .closes (fun hs => ?_) fun _ => rfl
        exact ⟨closed_complete (hs leaseId List.mem_cons_self), fun id hid =>
          (hs id (List.mem_cons_of_mem _ hid)).grows (.complete w leaseId)⟩
      | free => exact .goes (hworker _) id fun _ => rfl
      | publish =>
        exact .published (fun hs => ⟨hs.1, fun h' hh' => by cases hh'; exact hs.2⟩) fun _ => rfl
  | command newState payload pc =>
    cases pc with
    | get =>
      simp only [step]
      split_ifs
      · exact .ends hsame fun _ => rfl
      · exact .goes hsame id fun _ => rfl
    | update =>
      refine .goes ?_ id fun _ => rfl
      cases newState with
      | none => exact hsame
      | some state => exact hworker state
    | publish =>
      cases payload <;> exact .published (fun _ => ⟨trivial, nofun⟩) fun _ => rfl

end Handler

/-! ## The invariant -/

structure Sound (w : World keccak256) : Prop where
  tied : w.rig.Tied
  distinct : (w.leases.map LeaseRow.leaseId).Nodup
  handlers : ∀ h, some h ∈ w.handlers → h.Sound w
  toRig : ∀ sent ∈ w.toRig, SoundOp w sent.op
  held : ∀ lease, w.rig.leases.current = some lease → w.Backed lease
  /-- the task of a lease is in one place at most -/
  single : ∀ leaseId, w.copies leaseId ≤ 1

section

variable {w w' : World keccak256} {leaseId : String}

theorem Sound.row_eq (h : Sound w) {row row' : LeaseRow keccak256} (hrow : row ∈ w.leases)
    (hrow' : row' ∈ w.leases) (hid : row.leaseId = row'.leaseId) : row = row' :=
  List.inj_on_of_nodup_map h.distinct hrow hrow' hid

theorem Sound.not_due_of_closed (h : Sound w) (hclosed : w.Closed leaseId) : ¬ w.Due leaseId := by
  rintro ⟨row, hrow, hid, hbilled⟩
  obtain ⟨row', hrow', hid', hstate⟩ := hclosed
  rw [h.row_eq hrow hrow' (hid.trans hid'.symm)] at hbilled
  exact hstate hbilled.1

/-- When the rig's clock ends a lease, the platform's has ended it too. -/
theorem Sound.not_due_of_expired (h : Sound w) {lease : LeaseInfo}
    (hcur : w.rig.leases.current = some lease)
    (hexp : w.rig.leases.isExpired w.now = true) : ¬ w.Due lease.leaseId := by
  rintro ⟨row, hrow, hid, hbilled⟩
  obtain ⟨row', hrow', hlease, hcreated⟩ := h.held lease hcur
  have heq : row = row' :=
    h.row_eq hrow hrow' (hid.trans (congrArg LeaseInfo.leaseId hlease))
  subst heq
  have hduration : lease.durationSec = row.task.1.durationSec :=
    congrArg LeaseInfo.durationSec hlease
  have hpos : 0 < lease.durationSec := lt_of_lt_of_le (by decide) (h.tied.held lease hcur).1.1
  rw [show w.rig.leases = ⟨some lease⟩ from congrArg LeaseManager.mk hcur,
    LeaseManager.isExpired_iff hpos, hduration] at hexp
  have := hbilled.2
  unfold LeaseRow.endsAt at this
  omega

theorem Sound.known (h : Sound w) (hcopies : 1 ≤ w.copies leaseId) : w.Known leaseId := by
  unfold World.copies at hcopies
  by_cases hhandler : 0 < w.handlers.countP fun h => h.any (Handler.carries leaseId)
  · obtain ⟨o, ho, hany⟩ := List.countP_pos_iff.1 hhandler
    obtain ⟨hd, rfl, hcarries⟩ := (Option.any_eq_true _ _).1 hany
    have hsound := h.handlers hd ho
    unfold Handler.carries at hcarries
    split at hcarries
    · exact of_decide_eq_true hcarries ▸ hsound.known
    · exact of_decide_eq_true hcarries ▸ hsound.known
    · cases hcarries
  by_cases hsent : 0 < w.toRig.countP fun sent => carriesOp leaseId sent.op
  · obtain ⟨sent, hmem, hcarries⟩ := List.countP_pos_iff.1 hsent
    have hsound := h.toRig sent hmem
    unfold carriesOp at hcarries
    split at hcarries
    next task hop =>
      rw [hop] at hsound
      exact of_decide_eq_true hcarries ▸ hsound.known
    next => cases hcarries
  · have hheld : w.rig.holds leaseId = true := by
      by_contra hnot
      rw [Bool.not_eq_true] at hnot
      rw [hnot, Bool.toNat_false] at hcopies
      omega
    obtain ⟨lease, hcur, rfl⟩ := PlatformManager.holds_iff.1 hheld
    exact (h.held lease hcur).known

/-! ## What a step does to one lease -/

/-- The lease's task is moved on or dropped; it is dropped where the step loses it, and nowhere
else while the lease is due. -/
structure Passes (w w' : World keccak256) (leaseId : String) (lost : Bool) : Prop where
  known : w.Known leaseId → w'.Known leaseId
  le : w'.copies leaseId ≤ w.copies leaseId
  due : w'.Due leaseId → w.Due leaseId
  keep : lost = false → w'.Due leaseId → w.copies leaseId ≤ w'.copies leaseId
  lose : lost = true → w'.copies leaseId < w.copies leaseId

structure Begins (w w' : World keccak256) (leaseId : String) : Prop where
  fresh : ¬ w.Known leaseId
  once : w'.copies leaseId = 1

theorem Passes.same (hg : Grows w w') (hcopies : w'.copies leaseId = w.copies leaseId)
    (hdue : w'.Due leaseId → w.Due leaseId) : Passes w w' leaseId false :=
  ⟨fun h => h.grows hg, hcopies.le, hdue, fun _ _ => hcopies.ge, nofun⟩

theorem due_of_same (hleases : w'.leases = w.leases) (hnow : w.now ≤ w'.now)
    (h : w'.Due leaseId) : w.Due leaseId := by
  obtain ⟨row, hrow, hid, hactive, hbefore⟩ := h
  exact ⟨row, hleases ▸ hrow, hid, hactive, hnow.trans_lt hbefore⟩

theorem due_of_complete {closed : String} (h : (w.complete closed).Due leaseId) :
    w.Due leaseId := by
  obtain ⟨row', hrow', hid, hactive, hbefore⟩ := h
  obtain ⟨row, hrow, rfl⟩ := List.mem_map.1 hrow'
  split_ifs at hid hactive hbefore
  exact ⟨row, hrow, hid, hactive, hbefore⟩

/-- What a step has to show to keep the invariant. -/
theorem Sound.step_of (h : Sound w) (hg : Grows w w') (htied : w'.rig.Tied)
    (hdistinct : (w'.leases.map LeaseRow.leaseId).Nodup)
    (hhandlers : ∀ hd, some hd ∈ w'.handlers → some hd ∈ w.handlers ∨ hd.Sound w')
    (htoRig : ∀ sent ∈ w'.toRig, sent ∈ w.toRig ∨ SoundOp w' sent.op)
    (hheld : ∀ lease, w'.rig.leases.current = some lease →
      w.rig.leases.current = some lease ∨ w'.Backed lease)
    (htask : ∀ id, (∃ lost, Passes w w' id lost) ∨ Begins w w' id) : Sound w' := by
  refine ⟨htied, hdistinct, fun hd hmem => ?_, fun sent hmem => ?_, fun lease hcur => ?_,
    fun id => ?_⟩
  · exact (hhandlers hd hmem).elim (fun hold => (h.handlers hd hold).grows hg) fun hnew => hnew
  · exact (htoRig sent hmem).elim (fun hold => (h.toRig sent hold).grows hg) fun hnew => hnew
  · exact (hheld lease hcur).elim (fun hold => (h.held lease hold).grows hg) fun hnew => hnew
  · rcases htask id with ⟨lost, hpass⟩ | hbegin
    · exact hpass.le.trans (h.single id)
    · exact hbegin.once.le

theorem Frame.copies (hf : Frame w w') (leaseId : String) : w'.copies leaseId = w.copies leaseId := by
  unfold World.copies
  rw [hf.handlers, hf.toRig, hf.rig]

theorem Frame.passes (hf : Frame w w') (leaseId : String) : Passes w w' leaseId false :=
  .same hf.grows (hf.copies leaseId) (due_of_same hf.leases hf.now.ge)

theorem Sound.frame (h : Sound w) (hf : Frame w w') : Sound w' := by
  refine h.step_of hf.grows ?_ ?_ (fun hd hmem => ?_) (fun sent hmem => ?_) (fun lease hcur => ?_)
    fun id => Or.inl ⟨_, hf.passes id⟩
  · exact hf.rig ▸ h.tied
  · exact hf.leases ▸ h.distinct
  · exact Or.inl (hf.handlers ▸ hmem)
  · exact Or.inl (hf.toRig ▸ hmem)
  · exact Or.inl (hf.rig ▸ hcur)

/-! ## A new handler -/

theorem copies_spawn {hd : Handler keccak256} (hcarries : ∀ id, hd.carries id = false)
    (leaseId : String) : (w.spawn hd).copies leaseId = w.copies leaseId := by
  unfold World.copies World.spawn
  rw [List.countP_append, List.countP_singleton, Option.any_some, hcarries]
  rfl

theorem spawn_passes {hd : Handler keccak256} (hcarries : ∀ id, hd.carries id = false)
    (leaseId : String) : Passes w (w.spawn hd) leaseId false :=
  .same (.same rfl le_rfl) (copies_spawn hcarries leaseId) (due_of_same rfl le_rfl)

theorem Sound.spawn (h : Sound w) {hd : Handler keccak256} (hsound : hd.Sound w)
    (hcarries : ∀ id, hd.carries id = false) : Sound (w.spawn hd) := by
  have hg : Grows w (w.spawn hd) := .same rfl le_rfl
  refine h.step_of hg h.tied h.distinct (fun hd' hmem => ?_) (fun _ hmem => Or.inl hmem)
    (fun _ hcur => Or.inl hcur) fun id => Or.inl ⟨_, spawn_passes hcarries id⟩
  rcases List.mem_append.1 hmem with hold | hnew
  · exact Or.inl hold
  · cases List.mem_singleton.1 hnew
    exact Or.inr (hsound.grows hg)

/-! ## A handler's turn -/

/-- The world after a handler's turn: its slot holds what is left of it. -/
def World.leave (w : World keccak256) (i : Nat) (next : Option (Handler keccak256)) :
    World keccak256 :=
  { w with handlers := w.handlers.set i next }

theorem copies_leave {i : Nat} {hd : Handler keccak256} {next : Option (Handler keccak256)}
    (hi : w.handlers[i]?.join = some hd) (leaseId : String) :
    (w.leave i next).copies leaseId + (hd.carries leaseId).toNat =
      w.copies leaseId + (next.any (Handler.carries leaseId)).toNat := by
  have hcount := countP_set_join hi next fun h => h.any (Handler.carries leaseId)
  rw [Option.any_some] at hcount
  simp only [World.copies, World.leave]
  omega

theorem mem_leave {i : Nat} {next : Option (Handler keccak256)} {hd : Handler keccak256}
    (h : some hd ∈ (w.leave i next).handlers) : some hd ∈ w.handlers ∨ hd ∈ next := by
  rcases List.mem_or_eq_of_mem_set h with hold | hnew
  · exact Or.inl hold
  · exact Or.inr hnew.symm

theorem Frame.leave {i : Nat} {next : Option (Handler keccak256)} (hf : Frame w w') :
    Frame (w.leave i next) (w'.leave i next) := by
  refine ⟨hf.now, hf.leases, ?_, hf.toRig, hf.rig⟩
  simp only [World.leave, hf.handlers]

theorem Sound.leave (h : Sound w) {i : Nat} {hd : Handler keccak256}
    {next : Option (Handler keccak256)} (hi : w.handlers[i]?.join = some hd)
    (hsound : ∀ h' ∈ next, h'.Sound w)
    (hcarries : ∀ id, next.any (Handler.carries id) = hd.carries id) :
    Sound (w.leave i next) ∧ ∀ id, Passes w (w.leave i next) id false := by
  have hg : Grows w (w.leave i next) := .same rfl le_rfl
  have hpass : ∀ id, Passes w (w.leave i next) id false := by
    intro id
    have hcopies := @copies_leave _ w i hd next hi id
    rw [hcarries id] at hcopies
    exact .same hg (by omega) (due_of_same rfl le_rfl)
  refine ⟨h.step_of hg h.tied h.distinct (fun hd' hmem => ?_) (fun _ hmem => Or.inl hmem)
    (fun _ hcur => Or.inl hcur) fun id => Or.inl ⟨_, hpass id⟩, hpass⟩
  exact (mem_leave hmem).imp_right fun hnew => (hsound hd' hnew).grows hg

theorem Sound.complete (h : Sound w) (closed : String) :
    Sound (w.complete closed) ∧ ∀ id, Passes w (w.complete closed) id false := by
  have hg : Grows w (w.complete closed) := .complete w closed
  have hpass : ∀ id, Passes w (w.complete closed) id false := fun id => .same hg rfl due_of_complete
  have hdistinct : ((w.complete closed).leases.map LeaseRow.leaseId).Nodup := by
    have hids : (w.complete closed).leases.map LeaseRow.leaseId =
        w.leases.map LeaseRow.leaseId := by
      unfold World.complete
      rw [List.map_map]
      refine List.map_congr_left fun row _ => ?_
      simp only [Function.comp_apply]
      split_ifs <;> rfl
    rw [hids]
    exact h.distinct
  exact ⟨h.step_of hg h.tied hdistinct (fun _ hmem => Or.inl hmem) (fun _ hmem => Or.inl hmem)
    (fun _ hcur => Or.inl hcur) fun id => Or.inl ⟨_, hpass id⟩, hpass⟩

theorem copies_publish (w : World keccak256) (op : PlatformOp) (leaseId : String) :
    (w.publish op).copies leaseId = w.copies leaseId + (carriesOp leaseId op).toNat := by
  have hsent : ∀ sent : Sent, [sent].countP (fun sent => carriesOp leaseId sent.op) =
      (carriesOp leaseId sent.op).toNat := by
    intro sent
    rw [List.countP_singleton]
    cases carriesOp leaseId sent.op <;> rfl
  unfold World.copies World.publish
  rw [List.countP_append, hsent]
  dsimp only
  omega

theorem Sound.published (h : Sound w) {i : Nat} {hd : Handler keccak256}
    {next : Option (Handler keccak256)} {op : PlatformOp} (hi : w.handlers[i]?.join = some hd)
    (hop : SoundOp w op) (hsound : ∀ h' ∈ next, h'.Sound w)
    (hcarries : ∀ id, (next.any (Handler.carries id)).toNat + (carriesOp id op).toNat =
      (hd.carries id).toNat) :
    Sound ((w.publish op).leave i next) ∧
      ∀ id, Passes w ((w.publish op).leave i next) id false := by
  have hg : Grows w ((w.publish op).leave i next) := .same rfl le_rfl
  have hpass : ∀ id, Passes w ((w.publish op).leave i next) id false := by
    intro id
    have hleave := @copies_leave _ (w.publish op) i hd next hi id
    have hpublish := copies_publish w op id
    have hid := hcarries id
    exact .same hg (by omega) (due_of_same rfl le_rfl)
  refine ⟨h.step_of hg h.tied h.distinct (fun hd' hmem => ?_) (fun sent hmem => ?_)
    (fun _ hcur => Or.inl hcur) fun id => Or.inl ⟨_, hpass id⟩, hpass⟩
  · exact (mem_leave hmem).imp_right fun hnew => (hsound hd' hnew).grows hg
  · rcases List.mem_append.1 hmem with hold | hnew
    · exact Or.inl hold
    · cases List.mem_singleton.1 hnew
      exact Or.inr (hop.grows hg)

/-- The row of `task`, written at this moment. -/
def World.create (w : World keccak256) (task : ValidTask keccak256) : World keccak256 :=
  { w with leases := w.leases ++ [⟨task, .active, w.now⟩] }

theorem Sound.created (h : Sound w) {i : Nat} {task : ValidTask keccak256}
    (hi : w.handlers[i]?.join = some (.rent task .create)) (hfresh : ¬ w.Known task.leaseId) :
    Sound ((w.create task).leave i (some (.rent task .update))) ∧
      ∀ id, Passes w ((w.create task).leave i (some (.rent task .update))) id false ∨
        Begins w ((w.create task).leave i (some (.rent task .update))) id := by
  have hg : Grows w ((w.create task).leave i (some (.rent task .update))) :=
    ⟨le_rfl, (Grows.create task).rows⟩
  have htask : ∀ id, Passes w ((w.create task).leave i (some (.rent task .update))) id false ∨
      Begins w ((w.create task).leave i (some (.rent task .update))) id := by
    intro id
    have hcopies := @copies_leave _ (w.create task) i _ (some (.rent task .update)) hi id
    have hcreate : (w.create task).copies id = w.copies id := rfl
    have hbefore : (Handler.rent task .create).carries id = false := rfl
    have hafter : (some (Handler.rent task .update)).any (Handler.carries id) =
        decide (task.leaseId = id) := rfl
    rw [hcreate, hbefore, hafter, Bool.toNat_false, Nat.add_zero] at hcopies
    by_cases hid : task.leaseId = id
    · subst hid
      have hnone : w.copies task.leaseId = 0 := by
        by_contra hne
        exact hfresh (h.known (Nat.one_le_iff_ne_zero.2 hne))
      refine Or.inr ⟨hfresh, ?_⟩
      rw [hcopies, hnone]
      simp
    · rw [decide_eq_false hid, Bool.toNat_false, Nat.add_zero] at hcopies
      refine Or.inl (.same hg hcopies ?_)
      rintro ⟨row, hrow, hrowid, hbilled⟩
      rcases List.mem_append.1 hrow with hold | hnew
      · exact ⟨row, hold, hrowid, hbilled⟩
      · cases List.mem_singleton.1 hnew
        exact absurd hrowid hid
  have hdistinct : (((w.create task).leave i (some (.rent task .update))).leases.map
      LeaseRow.leaseId).Nodup := by
    change ((w.leases ++ [_]).map LeaseRow.leaseId).Nodup
    rw [List.map_append, List.map_singleton, List.nodup_append]
    refine ⟨h.distinct, List.nodup_singleton _, ?_⟩
    rintro id hold _ hnew rfl
    obtain ⟨row, hrow, hid⟩ := List.mem_map.1 hold
    exact hfresh ⟨row, hrow, hid.trans (List.mem_singleton.1 hnew)⟩
  refine ⟨h.step_of hg h.tied hdistinct (fun hd hmem => ?_) (fun _ hmem => Or.inl hmem)
    (fun _ hcur => Or.inl hcur) fun id => (htask id).imp_left fun hpass => ⟨_, hpass⟩, htask⟩
  refine (mem_leave hmem).imp_right fun hnew => ?_
  cases hnew
  exact ⟨_, List.mem_append_right _ List.mem_cons_self, rfl, le_rfl⟩

theorem Passes.trans {w'' : World keccak256} (h : Passes w w' leaseId false)
    (h' : Passes w' w'' leaseId false) : Passes w w'' leaseId false :=
  ⟨fun hknown => h'.known (h.known hknown), h'.le.trans h.le, fun hdue => h.due (h'.due hdue),
    fun _ hdue => (h.keep rfl (h'.due hdue)).trans (h'.keep rfl hdue), nofun⟩

theorem Sound.run (h : Sound w) {i : Nat} {hd : Handler keccak256}
    (hi : w.handlers[i]?.join = some hd) :
    Sound (w.runHandler i hd) ∧ ∀ id, Passes w (w.runHandler i hd) id false ∨
      Begins w (w.runHandler i hd) id := by
  have hhd : hd.Sound w := h.handlers hd (mem_of_join hi)
  have hmoved := hd.moved w
  change Sound ((hd.step w).2.leave i (hd.step w).1) ∧
    ∀ id, Passes w ((hd.step w).2.leave i (hd.step w).1) id false ∨
      Begins w ((hd.step w).2.leave i (hd.step w).1) id
  generalize (hd.step w).1 = next, (hd.step w).2 = w' at hmoved ⊢
  cases hmoved with
  | silent hw hsound hcarries =>
    obtain ⟨hleave, hpass⟩ := h.leave hi (hsound hhd) hcarries
    exact ⟨hleave.frame hw.leave, fun id => Or.inl ((hpass id).trans (hw.leave.passes id))⟩
  | created hh hfresh =>
    subst hh
    exact h.created hi hfresh
  | @completed leaseId _ hsound hcarries =>
    obtain ⟨hcomplete, hpass⟩ := h.complete leaseId
    obtain ⟨hleave, hpass'⟩ := hcomplete.leave hi (hsound hhd) hcarries
    exact ⟨hleave, fun id => Or.inl ((hpass id).trans (hpass' id))⟩
  | published hsound hcarries =>
    obtain ⟨hleave, hpass⟩ := h.published hi (hsound hhd).1 (hsound hhd).2 hcarries
    exact ⟨hleave, fun id => Or.inl (hpass id)⟩

end

end Matching

end TreeMiner
