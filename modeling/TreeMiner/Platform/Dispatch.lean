import TreeMiner.Lib.Run
import TreeMiner.Platform.Proto

/-! From the broker to the handlers: the bounded queue, the authorisation of a payload
and its command. Without a secret nothing a payload says reaches what the rig mines. -/

namespace TreeMiner

open Lib

/-- Why a payload had no effect. -/
inductive PayloadError
  | parse (e : ParseError)
  | unauthenticated (status : VerifyStatus)
  | unsignedMutating
  | handler (reason : RejectReason)
deriving DecidableEq, Repr

/-- The manager with its command intake. -/
structure PlatformNode where
  mgr : PlatformManager
  /-- `none` is a deployment without one -/
  commandSecret : Option String
  queueCapacity : Nat
  queue : List (String × List UInt8)
  dropped : Nat
  nonces : NonceCache
  shutdownRequested : Bool
  stopping : Bool

namespace PlatformNode

def new (mgr : PlatformManager) (commandSecret : Option String) (queueCapacity nonceCapacity : Nat) :
    PlatformNode :=
  ⟨mgr, commandSecret, queueCapacity, [], 0, .new nonceCapacity, false, false⟩

def withMgr (n : PlatformNode) (mgr : PlatformManager) : PlatformNode := { n with mgr := mgr }

def start (n : PlatformNode) (env : PlatformEnv) : PlatformNode :=
  if n.mgr.running then n else { n with stopping := false, mgr := n.mgr.start env }

def stop (n : PlatformNode) (env : PlatformEnv) : PlatformNode :=
  { n with stopping := true, mgr := n.mgr.stop env }

/-- The newest is dropped, so a flood cannot displace what was already accepted. -/
def enqueueCommand (n : PlatformNode) (topic : String) (payload : List UInt8) : PlatformNode :=
  if n.stopping then n
  else if payload.length > MAX_PAYLOAD_BYTES ∨ n.queue.length ≥ n.queueCapacity then
    { n with dropped := n.dropped + 1 }
  else { n with queue := n.queue ++ [(topic, payload)] }

section

variable (keccak256 : List UInt8 → Vector UInt8 32)
variable (hmacSha256 : String → String → Vector UInt8 32) (render : Value → String)
-- `serde_json::from_slice::<Value>`
variable (fromSlice : List UInt8 → Option Value)

/-- The envelope, or without a secret the policy that lets only harmless commands pass. -/
def authorizeCommand (n : PlatformNode) (msg : Value) (now : Int) :
    Except PayloadError Unit × PlatformNode :=
  match n.commandSecret with
  | some secret =>
    match verifyEnvelope hmacSha256 render msg secret n.mgr.config.workerId now n.nonces with
    | (.ok, nonces) => (.ok (), { n with nonces := nonces })
    | (status, nonces) => (.error (.unauthenticated status), { n with nonces := nonces })
  | none => if isMutatingCommand msg then (.error .unsignedMutating, n) else (.ok (), n)

/-- A handler's reply, in the node. -/
def answered (n : PlatformNode) (reply : Reply) : Except PayloadError Unit × PlatformNode :=
  (reply.1.mapError .handler, n.withMgr reply.2)

def handleControl (n : PlatformNode) (action : ControlAction) (env : PlatformEnv) :
    Except PayloadError Unit × PlatformNode :=
  match action with
  | .pause => n.answered (n.mgr.handlePause env)
  | .resume => n.answered (n.mgr.handleResume env)
  | .shutdown => (.ok (), { n with shutdownRequested := true }.stop env)
  | .setConfig config => n.answered (n.mgr.handleSetConfig keccak256 config)

def handleCommand (n : PlatformNode) (cmd : Command) (env : PlatformEnv) :
    Except PayloadError Unit × PlatformNode :=
  match cmd with
  | .registerAck ack => n.answered (n.mgr.handleRegisterAck ack env)
  | .assignTask task => n.answered (n.mgr.handleAssignTask keccak256 task env)
  | .release release => n.answered (n.mgr.handleRelease release env)
  | .control action => n.handleControl keccak256 action env

def tryHandlePayload (n : PlatformNode) (payload : List UInt8) (env : PlatformEnv) (now : Int) :
    Except PayloadError Unit × PlatformNode :=
  match valueFromPayload fromSlice payload with
  | .error e => (.error (.parse e), n)
  | .ok msg =>
    match n.authorizeCommand hmacSha256 render msg now with
    | (.error e, n) => (.error e, n)
    | (.ok (), n) =>
      match commandFromValue msg with
      | .error e => (.error (.parse e), n)
      | .ok cmd => n.handleCommand keccak256 cmd env

/-- One turn of the dispatch loop: the oldest queued payload is handled. -/
def dispatchNext (n : PlatformNode) (env : PlatformEnv) (now : Int) : PlatformNode :=
  match n.queue with
  | [] => n
  | (_, payload) :: rest =>
    ({ n with queue := rest }.tryHandlePayload keccak256 hmacSha256 render fromSlice payload env
      now).2

end

end PlatformNode

/-- What happens to a node; every handler and tick reads the clocks anew. -/
inductive NodeEvent
  | start (env : PlatformEnv)
  | received (topic : String) (payload : List UInt8)
  | dispatched (env : PlatformEnv) (now : Int)
  | watchdogTick (env : PlatformEnv)

namespace PlatformNode

variable (keccak256 : List UInt8 → Vector UInt8 32)
variable (hmacSha256 : String → String → Vector UInt8 32) (render : Value → String)
variable (fromSlice : List UInt8 → Option Value)

def event (n : PlatformNode) : NodeEvent → PlatformNode
  | .start env => n.start env
  | .received topic payload => n.enqueueCommand topic payload
  | .dispatched env now => n.dispatchNext keccak256 hmacSha256 render fromSlice env now
  | .watchdogTick env => n.withMgr (n.mgr.watchdogTick env)

end PlatformNode

/-! ## Without a secret -/

/-- What a rig mines for is as it was: nothing leased, nothing reconfigured. -/
structure Untouched (c : MiningCoordinator) (m : PlatformManager) : Prop where
  coordinator : m.coordinator = c
  noLease : m.leases.current = none
  notMining : m.state ≠ .mining

namespace Untouched

variable {c : MiningCoordinator} {m : PlatformManager} {env : PlatformEnv}

theorem transitionTo {new : PlatformState} (h : Untouched c m) (hnew : new ≠ .mining) :
    Untouched c (m.transitionTo env new) :=
  ⟨by simp [h.coordinator], by simp [h.noLease], by simpa using hnew⟩

theorem sendRegistration (h : Untouched c m) : Untouched c m.sendRegistration :=
  ⟨h.coordinator, h.noLease, h.notMining⟩

theorem start (h : Untouched c m) : Untouched c (m.start env) := by
  unfold PlatformManager.start
  split_ifs
  · exact h
  · exact (sendRegistration (m := { m with running := true })
      ⟨h.coordinator, h.noLease, h.notMining⟩).transitionTo (by simp)

/-- No lease is held, so none is active. -/
theorem hasActiveLease (h : Untouched c m) : m.leases.hasActiveLease env.monotonic = false := by
  simp [LeaseManager.hasActiveLease, h.noLease]

theorem stop (h : Untouched c m) : Untouched c (m.stop env) := by
  unfold PlatformManager.stop
  split_ifs
  · exact h
  · dsimp only
    rw [h.hasActiveLease]
    have hoffline : Untouched c ({ m with running := false }.publish .offline) :=
      ⟨h.coordinator, h.noLease, h.notMining⟩
    exact hoffline.transitionTo (by simp)

theorem registerAck (h : Untouched c m) (ack : RegisterAck) :
    Untouched c (m.handleRegisterAck ack env).2 := by
  unfold PlatformManager.handleRegisterAck
  split_ifs
  · exact h.transitionTo (by simp)
  · exact h
  · exact h.transitionTo (by simp)

theorem release (h : Untouched c m) (release : Release) :
    Untouched c (m.handleRelease release env).2 := by
  unfold PlatformManager.handleRelease
  rw [h.noLease]
  split_ifs <;> exact h

theorem pause (h : Untouched c m) : Untouched c (m.handlePause env).2 := by
  unfold PlatformManager.handlePause
  rw [h.hasActiveLease]
  exact h.transitionTo (by simp)

theorem resume (h : Untouched c m) : Untouched c (m.handleResume env).2 := by
  unfold PlatformManager.handleResume
  split_ifs
  · exact h.sendRegistration.transitionTo (by simp)
  · exact h

theorem watchdogTick (h : Untouched c m) : Untouched c (m.watchdogTick env) := by
  unfold PlatformManager.watchdogTick
  have hno : ¬ (m.state = .mining ∧ m.leases.isExpired env.monotonic = true) :=
    fun hm => h.notMining hm.1
  simp only [if_neg hno]
  split_ifs
  · exact ((h.transitionTo (by simp)).sendRegistration).transitionTo (by simp)
  · exact h.transitionTo (by simp)
  · exact h

end Untouched

/-- A node without a secret that nothing has moved. -/
structure Uncontrolled (c : MiningCoordinator) (n : PlatformNode) : Prop where
  noSecret : n.commandSecret = none
  mgr : Untouched c n.mgr
  noShutdown : n.shutdownRequested = false

namespace Uncontrolled

variable {keccak256 : List UInt8 → Vector UInt8 32}
variable {hmacSha256 : String → String → Vector UInt8 32} {render : Value → String}
variable {fromSlice : List UInt8 → Option Value}
variable {c : MiningCoordinator} {n : PlatformNode} {env : PlatformEnv}

theorem answered {reply : Reply} (h : Uncontrolled c n) (hr : Untouched c reply.2) :
    Uncontrolled c (n.answered reply).2 :=
  ⟨h.noSecret, hr, h.noShutdown⟩

theorem handleCommand {cmd : Command} (h : Uncontrolled c n) (hcmd : cmd.Harmless) :
    Uncontrolled c (n.handleCommand keccak256 cmd env).2 := by
  cases hcmd with
  | ack ack => exact h.answered (h.mgr.registerAck ack)
  | release release => exact h.answered (h.mgr.release release)
  | pause => exact h.answered h.mgr.pause
  | resume => exact h.answered h.mgr.resume

/-- Whatever the payload, it is refused, or it is a harmless command. -/
theorem tryHandlePayload (h : Uncontrolled c n) (payload : List UInt8) (now : Int) :
    Uncontrolled c
      (n.tryHandlePayload keccak256 hmacSha256 render fromSlice payload env now).2 := by
  unfold PlatformNode.tryHandlePayload PlatformNode.authorizeCommand
  rw [h.noSecret]
  cases valueFromPayload fromSlice payload with
  | error e => exact h
  | ok msg =>
    dsimp only
    cases hm : isMutatingCommand msg with
    | true => exact h
    | false =>
      cases hcmd : commandFromValue msg with
      | error e => exact h
      | ok cmd => exact h.handleCommand (harmless_of_not_mutating hm hcmd)

theorem event (h : Uncontrolled c n) (e : NodeEvent) :
    Uncontrolled c (n.event keccak256 hmacSha256 render fromSlice e) := by
  cases e with
  | start env =>
    unfold PlatformNode.event PlatformNode.start
    dsimp only
    split_ifs
    · exact h
    · exact ⟨h.noSecret, h.mgr.start, h.noShutdown⟩
  | received topic payload =>
    unfold PlatformNode.event PlatformNode.enqueueCommand
    dsimp only
    split_ifs <;> exact ⟨h.noSecret, h.mgr, h.noShutdown⟩
  | dispatched env now =>
    unfold PlatformNode.event PlatformNode.dispatchNext
    cases n.queue with
    | nil => exact h
    | cons p rest =>
      exact tryHandlePayload (n := { n with queue := rest }) ⟨h.noSecret, h.mgr, h.noShutdown⟩
        p.2 now
  | watchdogTick env => exact ⟨h.noSecret, h.mgr.watchdogTick, h.noShutdown⟩

end Uncontrolled

/-- A manager configured without a secret, as it is built. -/
def PlatformNode.unsigned (config : PlatformConfig) (base : MiningIdentity) (difficulty : Int)
    (queueCapacity nonceCapacity : Nat) : PlatformNode :=
  .new (.new config base difficulty) none queueCapacity nonceCapacity

/-- Without a secret, whatever payloads arrive and in whatever order with the watchdog's
ticks: the coordinator, the lease and the shutdown flag stay as they were at every moment,
and any two such runs mine for the same identity. -/
theorem no_secret_no_control (keccak256 : List UInt8 → Vector UInt8 32)
    (hmacSha256 : String → String → Vector UInt8 32) (render : Value → String)
    (fromSlice : List UInt8 → Option Value) (config : PlatformConfig) (base : MiningIdentity)
    (difficulty : Int) (queueCapacity nonceCapacity : Nat) (events events' : List NodeEvent) :
    let n := PlatformNode.unsigned config base difficulty queueCapacity nonceCapacity
    let step := PlatformNode.event keccak256 hmacSha256 render fromSlice
    (∀ n' ∈ visited n (trace step n events), n'.mgr.coordinator = n.mgr.coordinator ∧
      n'.mgr.leases.current = none ∧ n'.shutdownRequested = false) ∧
    currentIdentity base (events.foldl step n).mgr.coordinator =
      currentIdentity base (events'.foldl step n).mgr.coordinator := by
  intro n step
  have hinv := fun es => (Run.trace step n es).inv (I := Uncontrolled n.mgr.coordinator)
    (fun n e n' (hs : n' = step n e) hI => hs ▸ hI.event e) ⟨rfl, ⟨rfl, rfl, by simp [n, PlatformNode.unsigned,
      PlatformNode.new, PlatformManager.new]⟩, rfl⟩
  refine ⟨fun n' hn => ?_, ?_⟩
  · have h := (hinv events).1 n' hn
    exact ⟨h.mgr.coordinator, h.mgr.noLease, h.noShutdown⟩
  · rw [(hinv events).2.2.mgr.coordinator, (hinv events').2.2.mgr.coordinator]

end TreeMiner
