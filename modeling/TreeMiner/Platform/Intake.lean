import TreeMiner.Lib.Fifo
import TreeMiner.Platform.Dispatch

/-! From the network thread to the dispatcher: which payloads are handled, in what order and
how often, and which are lost. A flood costs the payloads that come while the queue is full and
no others. -/

namespace TreeMiner

open Lib

namespace PlatformNode

variable {keccak256 : List UInt8 → Vector UInt8 32}
variable {hmacSha256 : String → String → Vector UInt8 32} {render : Value → String}
variable {fromSlice : List UInt8 → Option Value}

/-- What of a node the intake reads and writes. -/
def intake (n : PlatformNode) : Fifo (String × List UInt8) := ⟨n.queue, n.dropped⟩

/-- A payload of a size worth queueing. -/
def fits (p : String × List UInt8) : Bool := decide (p.2.length ≤ MAX_PAYLOAD_BYTES)

/-- What an event does to the intake. A payload that comes while the node is being torn down
touches nothing. -/
def intakeOp (t : Trans PlatformNode NodeEvent) : Option (Fifo.Op (String × List UInt8)) :=
  match t.ev with
  | .received topic payload => if t.pre.stopping then none else some (.offer (topic, payload))
  | .dispatched _ _ => some .take
  | .start _ => none
  | .watchdogTick _ => none

/-! ## What an event leaves of the intake -/

/-- The intake of a node and the room it has. -/
structure SameIntake (n n' : PlatformNode) : Prop where
  intake : n'.intake = n.intake
  capacity : n'.queueCapacity = n.queueCapacity

namespace SameIntake

variable {n n' n'' : PlatformNode} {env : PlatformEnv}

theorem refl (n : PlatformNode) : SameIntake n n := ⟨rfl, rfl⟩

theorem trans (h : SameIntake n n') (h' : SameIntake n' n'') : SameIntake n n'' :=
  ⟨h'.intake.trans h.intake, h'.capacity.trans h.capacity⟩

theorem start (n : PlatformNode) (env : PlatformEnv) : SameIntake n (n.start env) := by
  unfold PlatformNode.start
  split_ifs
  · exact refl n
  · exact ⟨rfl, rfl⟩

theorem handleCommand (n : PlatformNode) (cmd : Command) (env : PlatformEnv) :
    SameIntake n (n.handleCommand keccak256 cmd env).2 := by
  cases cmd with
  | registerAck ack => exact ⟨rfl, rfl⟩
  | assignTask task => exact ⟨rfl, rfl⟩
  | release release => exact ⟨rfl, rfl⟩
  | control action => cases action <;> exact ⟨rfl, rfl⟩

theorem authorizeCommand (n : PlatformNode) (msg : Value) (now : Int) :
    SameIntake n (n.authorizeCommand hmacSha256 render msg now).2 := by
  unfold PlatformNode.authorizeCommand
  cases n.commandSecret with
  | none =>
    dsimp only
    split_ifs <;> exact refl n
  | some secret =>
    dsimp only
    split <;> exact ⟨rfl, rfl⟩

/-- Whatever is in a payload, handling it leaves the payloads behind it alone. -/
theorem tryHandlePayload (n : PlatformNode) (payload : List UInt8) (env : PlatformEnv)
    (now : Int) :
    SameIntake n
      (n.tryHandlePayload keccak256 hmacSha256 render fromSlice payload env now).2 := by
  unfold PlatformNode.tryHandlePayload
  cases valueFromPayload fromSlice payload with
  | error e => exact refl n
  | ok msg =>
    dsimp only
    have hauth : SameIntake n (n.authorizeCommand hmacSha256 render msg now).2 :=
      authorizeCommand n msg now
    generalize n.authorizeCommand hmacSha256 render msg now = answer at hauth ⊢
    obtain ⟨result, n'⟩ := answer
    cases result with
    | error e => exact hauth
    | ok u =>
      dsimp only
      cases commandFromValue msg with
      | error e => exact hauth
      | ok cmd => exact hauth.trans (handleCommand n' cmd env)

end SameIntake

theorem takes_intake (n : PlatformNode) (topic : String) (payload : List UInt8) :
    n.intake.takes n.queueCapacity fits (topic, payload) = true ↔
      ¬(payload.length > MAX_PAYLOAD_BYTES ∨ n.queue.length ≥ n.queueCapacity) := by
  rw [Fifo.takes_iff, fits, decide_eq_true_iff]
  change payload.length ≤ _ ∧ n.queue.length < _ ↔ _
  omega

theorem intake_enqueueCommand {n : PlatformNode} (topic : String) (payload : List UInt8)
    (hstop : n.stopping = false) :
    (n.enqueueCommand topic payload).intake =
      n.intake.step n.queueCapacity fits (.offer (topic, payload)) := by
  have htake := takes_intake n topic payload
  rw [enqueueCommand, hstop, if_neg Bool.false_ne_true, Fifo.step]
  by_cases hfull : payload.length > MAX_PAYLOAD_BYTES ∨ n.queue.length ≥ n.queueCapacity
  · rw [if_pos hfull, if_neg (mt htake.1 (not_not_intro hfull))]
    rfl
  · rw [if_neg hfull, if_pos (htake.2 hfull)]
    rfl

theorem queueCapacity_enqueueCommand (n : PlatformNode) (topic : String)
    (payload : List UInt8) :
    (n.enqueueCommand topic payload).queueCapacity = n.queueCapacity := by
  unfold enqueueCommand
  split_ifs <;> rfl

/-- An event on the intake: its operation there, and no other change. -/
theorem intake_event (n : PlatformNode) (e : NodeEvent) :
    let n' := n.event keccak256 hmacSha256 render fromSlice e
    n'.queueCapacity = n.queueCapacity ∧
      n'.intake = ((intakeOp ⟨n, e, n'⟩).elim n.intake (n.intake.step n.queueCapacity fits)) := by
  intro n'
  cases e with
  | start env =>
    have h := SameIntake.start n env
    exact ⟨h.capacity, h.intake⟩
  | watchdogTick env => exact ⟨rfl, rfl⟩
  | received topic payload =>
    refine ⟨queueCapacity_enqueueCommand n topic payload, ?_⟩
    cases hstop : n.stopping with
    | true => simp [n', event, enqueueCommand, intakeOp, hstop]
    | false =>
      rw [show n' = n.enqueueCommand topic payload from rfl,
        intake_enqueueCommand topic payload hstop]
      simp [intakeOp, hstop]
  | dispatched env now =>
    unfold n' PlatformNode.event dispatchNext
    cases hq : n.queue with
    | nil => simp [intakeOp, Fifo.step, intake, hq]
    | cons p rest =>
      have h := @SameIntake.tryHandlePayload keccak256 hmacSha256 render fromSlice
        { n with queue := rest } p.2 env now
      refine ⟨h.capacity, h.intake.trans ?_⟩
      simp [intakeOp, Fifo.step, intake, hq]

/-! ## Runs -/

/-- A payload that came while the node took any. -/
def receivedBy (t : Trans PlatformNode NodeEvent) : Option (String × List UInt8) :=
  match t.ev with
  | .received topic payload => if t.pre.stopping then none else some (topic, payload)
  | _ => none

/-- A payload that was let into the queue. -/
def acceptedBy (t : Trans PlatformNode NodeEvent) : Option (String × List UInt8) :=
  match t.ev with
  | .received topic payload =>
    if t.pre.stopping ∨ payload.length > MAX_PAYLOAD_BYTES ∨
        t.pre.queue.length ≥ t.pre.queueCapacity then none
    else some (topic, payload)
  | _ => none

/-- The payload a turn of the dispatch loop handles. -/
def handledBy (t : Trans PlatformNode NodeEvent) : Option (String × List UInt8) :=
  match t.ev with
  | .dispatched _ _ => t.pre.queue.head?
  | _ => none

/-- An event as the queue sees it. -/
def intakeTrans (t : Trans PlatformNode NodeEvent) :
    Option (Trans (Fifo (String × List UInt8)) (Fifo.Op (String × List UInt8))) :=
  (intakeOp t).map fun e => ⟨t.pre.intake, e, t.post.intake⟩

theorem offeredBy_intake (t : Trans PlatformNode NodeEvent) :
    (intakeTrans t).bind Fifo.offeredBy = receivedBy t := by
  obtain ⟨pre, ev, post⟩ := t
  cases ev with
  | received topic payload =>
    cases hstop : pre.stopping <;> simp [intakeTrans, intakeOp, receivedBy, Fifo.offeredBy, hstop]
  | _ => rfl

theorem takenBy_intake (t : Trans PlatformNode NodeEvent) :
    (intakeTrans t).bind Fifo.takenBy = handledBy t := by
  obtain ⟨pre, ev, post⟩ := t
  cases ev with
  | received topic payload =>
    cases hstop : pre.stopping <;> simp [intakeTrans, intakeOp, handledBy, Fifo.takenBy, hstop]
  | _ => rfl

theorem acceptedBy_intake (t : Trans PlatformNode NodeEvent) :
    (intakeTrans t).bind (Fifo.acceptedBy t.pre.queueCapacity fits) = acceptedBy t := by
  obtain ⟨pre, ev, post⟩ := t
  cases ev with
  | received topic payload =>
    cases hstop : pre.stopping with
    | true => simp [intakeTrans, intakeOp, acceptedBy, hstop]
    | false =>
      have htake := takes_intake pre topic payload
      by_cases hfull : payload.length > MAX_PAYLOAD_BYTES ∨ pre.queue.length ≥ pre.queueCapacity
      · simp [intakeTrans, intakeOp, acceptedBy, Fifo.acceptedBy, hstop, hfull, htake]
      · simp [intakeTrans, intakeOp, acceptedBy, Fifo.acceptedBy, hstop, hfull, htake]
  | _ => rfl

theorem event_bounded (n : PlatformNode) (e : NodeEvent) {capacity : Nat}
    (hcap : n.queueCapacity = capacity) (hqueue : n.queue.length ≤ capacity) :
    let n' := n.event keccak256 hmacSha256 render fromSlice e
    n'.queueCapacity = capacity ∧ n'.queue.length ≤ capacity := by
  intro n'
  have hevent := @intake_event keccak256 hmacSha256 render fromSlice n e
  refine ⟨hevent.1.trans hcap, ?_⟩
  change n'.intake.items.length ≤ capacity
  rw [hevent.2, hcap]
  cases intakeOp ⟨n, e, n'⟩ with
  | none => exact hqueue
  | some op => exact n.intake.step_bounded op hqueue

/-- What the queue of a node goes through in a run is a run of the queue. -/
theorem run_intake {n u : PlatformNode} {ts : List (Trans PlatformNode NodeEvent)}
    (h : Run (fun n e n' => n' = n.event keccak256 hmacSha256 render fromSlice e) n ts u) :
    Run (fun q e q' => q' = q.step n.queueCapacity fits e) n.intake
      (ts.filterMap intakeTrans) u.intake := by
  have hcap := h.inv (I := fun m => m.queueCapacity = n.queueCapacity)
    (fun m e m' hs hm => by rw [hs, (intake_event m e).1, hm]) rfl
  refine (h.restrict hcap.2.1).simulate intake intakeOp ?_ ?_
  · rintro ⟨m, e, m'⟩ ⟨hs, -⟩ hquiet
    obtain rfl : m' = m.event keccak256 hmacSha256 render fromSlice e := hs
    dsimp only
    rw [(intake_event m e).2, hquiet]
    rfl
  · rintro ⟨m, e, m'⟩ op ⟨hs, hm⟩ hop
    obtain rfl : m' = m.event keccak256 hmacSha256 render fromSlice e := hs
    dsimp only
    rw [(intake_event m e).2, hop]
    exact congrArg (fun c => m.intake.step c fits op) hm

end PlatformNode

/-- Over every run of a node from its start: what the dispatcher has handled and what still waits
is, in this order, what was let into the queue, so no payload is handled twice, out of turn or
without having come; what is let in came in that order and is small enough to keep; the queue
never outgrows its capacity; and every payload that came is either let in or counted as
dropped. -/
theorem intake_in_order (keccak256 : List UInt8 → Vector UInt8 32)
    (hmacSha256 : String → String → Vector UInt8 32) (render : Value → String)
    (fromSlice : List UInt8 → Option Value) (mgr : PlatformManager) (secret : Option String)
    (queueCapacity nonceCapacity : Nat) (events : List NodeEvent) :
    let n := PlatformNode.new mgr secret queueCapacity nonceCapacity
    let step := PlatformNode.event keccak256 hmacSha256 render fromSlice
    let ts := trace step n events
    let u := events.foldl step n
    ts.filterMap PlatformNode.acceptedBy = ts.filterMap PlatformNode.handledBy ++ u.queue ∧
      (ts.filterMap PlatformNode.acceptedBy).Sublist (ts.filterMap PlatformNode.receivedBy) ∧
      (∀ p ∈ ts.filterMap PlatformNode.acceptedBy, p.2.length ≤ MAX_PAYLOAD_BYTES) ∧
      (∀ m ∈ visited n ts, m.queue.length ≤ queueCapacity) ∧
      (ts.filterMap PlatformNode.receivedBy).length =
        (ts.filterMap PlatformNode.acceptedBy).length + u.dropped := by
  intro n step ts u
  have hrun : Run (fun n e n' => n' = n.event keccak256 hmacSha256 render fromSlice e) n ts u :=
    Run.trace step n events
  have hcap := hrun.inv (I := fun m => m.queueCapacity = queueCapacity)
    (fun m e m' hs hm => by rw [hs, (PlatformNode.intake_event m e).1, hm]) rfl
  have hqueue := PlatformNode.run_intake hrun
  have haccepted : (ts.filterMap PlatformNode.intakeTrans).filterMap
      (Fifo.acceptedBy queueCapacity PlatformNode.fits) =
        ts.filterMap PlatformNode.acceptedBy := by
    rw [List.filterMap_filterMap]
    refine List.filterMap_congr fun t ht => ?_
    rw [← hcap.2.1 t ht]
    exact PlatformNode.acceptedBy_intake t
  have hreceived : (ts.filterMap PlatformNode.intakeTrans).filterMap Fifo.offeredBy =
      ts.filterMap PlatformNode.receivedBy := by
    rw [List.filterMap_filterMap]
    exact List.filterMap_congr fun t _ => PlatformNode.offeredBy_intake t
  have hhandled : (ts.filterMap PlatformNode.intakeTrans).filterMap Fifo.takenBy =
      ts.filterMap PlatformNode.handledBy := by
    rw [List.filterMap_filterMap]
    exact List.filterMap_congr fun t _ => PlatformNode.takenBy_intake t
  have hsub := @Fifo.accepted_sublist _ queueCapacity PlatformNode.fits
    (ts.filterMap PlatformNode.intakeTrans)
  rw [haccepted, hreceived] at hsub
  refine ⟨?_, hsub.1, ?_, ?_, ?_⟩
  · have hitems := Fifo.run_items hqueue
    rw [show n.queueCapacity = queueCapacity from rfl, haccepted, hhandled] at hitems
    exact hitems
  · intro p hp
    exact of_decide_eq_true (hsub.2 p hp)
  · intro m hm
    exact ((hrun.inv (I := fun m => m.queueCapacity = queueCapacity ∧
      m.queue.length ≤ queueCapacity) (fun m e m' hs hm => by
        rw [hs]
        exact m.event_bounded e hm.1 hm.2) ⟨rfl, Nat.zero_le _⟩).1 m hm).2
  · have hdropped := Fifo.run_dropped hqueue
    rw [show n.queueCapacity = queueCapacity from rfl, haccepted, hreceived] at hdropped
    exact (Nat.zero_add _).symm.trans hdropped

end TreeMiner
