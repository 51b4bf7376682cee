import TreeMiner.Lib.Slots
import TreeMiner.Platform.LeaseSafety
import TreeMiner.Server.Store

/-! The platform and one rig: `MatchingEngine`, the console's worker commands and the rig's
manager, with the commands on their way. Between two `await`s a handler runs alone. What no
handler here reads is left out, and so are the rows of other workers. -/

namespace TreeMiner.Matching

open Lib
open Server (LeaseState)

variable (keccak256 : List UInt8 → Vector UInt8 32)

/-- The parameters of a rent that the rig's own checks pass. -/
abbrev ValidTask := {task : AssignTask // task.WellFormed keccak256}

variable {keccak256}

def ValidTask.leaseId (task : ValidTask keccak256) : String := task.1.leaseId

variable (keccak256)

/-- A row of `leases`; `createdAt` is a reading of `World.now`. -/
structure LeaseRow where
  task : ValidTask keccak256
  state : LeaseState
  createdAt : Nat

variable {keccak256}

def LeaseRow.leaseId (row : LeaseRow keccak256) : String := row.task.leaseId

/-- From this reading on the lease's duration has elapsed. -/
def LeaseRow.endsAt (row : LeaseRow keccak256) : Nat :=
  row.createdAt + row.task.1.durationSec.toNat * NANOS_PER_SEC

/-! ## The console's commands -/

/-- The commands but `stop`, which ends the connection. -/
inductive WalletCommand
  | list
  | unlist
  | updateConfig
deriving DecidableEq, Repr

structure WalletParams where
  state : Option String
  config : SetConfig
deriving DecidableEq, Repr

def VALID_WORKER_STATES : List String := ["SELF_MINING", "AVAILABLE", "LEASED"]

inductive ControlPayload
  | pause
  | resume
  | setConfig (config : SetConfig)
deriving DecidableEq, Repr

def ControlPayload.op : ControlPayload → PlatformOp
  | .pause => .pause
  | .resume => .resume
  | .setConfig config => .setConfig config

/-- The state the command writes into the worker's row. -/
def WalletCommand.newState (command : WalletCommand) (params : WalletParams) : Option String :=
  match command with
  | .list => some "AVAILABLE"
  | .unlist => some "SELF_MINING"
  | .updateConfig => params.state

def STATE_ACTION (state : Option String) : Option ControlPayload :=
  if state = some "AVAILABLE" then some .resume
  else if state = some "SELF_MINING" then some .pause
  else none

/-- `_control_payload`; `none` where the request is answered with a 400. -/
def controlPayload (newState : Option String) (config : SetConfig) : Option ControlPayload :=
  if config ≠ ⟨none, none, none, none⟩ then some (.setConfig config) else STATE_ACTION newState

/-! ## The handlers -/

inductive RegisterPc
  | upsert
  | acknowledge
deriving DecidableEq, Repr

inductive RentPc
  | acquire
  | getWorker
  | getActive (state : Option String)
  | create
  | update
  | publish
deriving DecidableEq, Repr

inductive StopPc
  | acquire
  | get
  | complete
  | free
  | publish
deriving DecidableEq, Repr

inductive SweepPc
  | complete
  | free
  | publish
deriving DecidableEq, Repr

inductive CommandPc
  | get
  | update
  | publish
deriving DecidableEq, Repr

variable (keccak256)

/-- A handler at the `await` it has reached. -/
inductive Handler
  | register (pc : RegisterPc)
  | statusUpdate (state : String)
  | rent (task : ValidTask keccak256) (pc : RentPc)
  | stop (leaseId : String) (pc : StopPc)
  /-- `check_expired_leases`, with the leases it has still to close -/
  | sweep (expired : List String) (pc : SweepPc)
  | command (newState : Option String) (payload : ControlPayload) (pc : CommandPc)

/-- A signed command on its way; `expiresAt` in seconds. -/
structure Sent where
  op : PlatformOp
  expiresAt : Nat
deriving DecidableEq, Repr

/-- `worker` is the state in the worker's row, `none` before its first registration. Both sides
read one clock, in nanoseconds. `handled` counts the rig's messages the platform has taken. -/
structure World where
  lifetimeSec : Nat
  now : Nat
  worker : Option String
  leases : List (LeaseRow keccak256)
  locked : Bool
  handlers : List (Option (Handler keccak256))
  toRig : List Sent
  rig : PlatformManager
  handled : Nat

variable {keccak256}

namespace World

def setWorker (w : World keccak256) (state : String) : World keccak256 :=
  { w with worker := w.worker.map fun _ => state }

def complete (w : World keccak256) (leaseId : String) : World keccak256 :=
  { w with leases := w.leases.map fun row =>
      if row.leaseId = leaseId then { row with state := .completed } else row }

def publish (w : World keccak256) (op : PlatformOp) : World keccak256 :=
  { w with toRig := w.toRig ++ [⟨op, w.now / NANOS_PER_SEC + w.lifetimeSec⟩] }

def acquire (w : World keccak256) : World keccak256 := { w with locked := true }

def release (w : World keccak256) : World keccak256 := { w with locked := false }

/-- `get_active_lease_for_worker` finds one. -/
def hasActive (w : World keccak256) : Bool := w.leases.any fun row => row.state = .active

/-- `find_expired` -/
def expired (w : World keccak256) : List String :=
  (w.leases.filter fun row => row.state = .active && decide (row.endsAt < w.now)).map
    LeaseRow.leaseId

end World

/-- A lease id is a primary key, and one active lease of a worker is all the index allows. -/
def World.createLease (w : World keccak256) (task : ValidTask keccak256) :
    Option (World keccak256) :=
  if (w.leases.any fun row => row.leaseId = task.leaseId) || w.hasActive then none
  else some { w with leases := w.leases ++ [⟨task, .active, w.now⟩] }

/-- A handler runs to its next `await`; `none` where it has returned or raised. -/
def Handler.step (w : World keccak256) :
    Handler keccak256 → Option (Handler keccak256) × World keccak256
  | .register .upsert => (some (.register .acknowledge), { w with worker := some "AVAILABLE" })
  | .register .acknowledge => (none, w.publish (.registerAck ⟨true⟩))
  | .statusUpdate state => (none, w.setWorker state)
  | .rent task .acquire =>
    if w.locked then (some (.rent task .acquire), w) else (some (.rent task .getWorker), w.acquire)
  | .rent task .getWorker => (some (.rent task (.getActive w.worker)), w)
  | .rent task (.getActive state) =>
    if state = some "AVAILABLE" ∧ w.hasActive = false then (some (.rent task .create), w)
    else (none, w.release)
  | .rent task .create =>
    match w.createLease task with
    | none => (none, w.release)
    | some w => (some (.rent task .update), w)
  | .rent task .update => (some (.rent task .publish), (w.setWorker "LEASED").release)
  | .rent task .publish => (none, w.publish (.assignTask task.1))
  | .stop leaseId .acquire =>
    if w.locked then (some (.stop leaseId .acquire), w) else (some (.stop leaseId .get), w.acquire)
  | .stop leaseId .get =>
    if w.leases.any fun row => row.leaseId = leaseId && row.state = .active then
      (some (.stop leaseId .complete), w)
    else (none, w.release)
  | .stop leaseId .complete => (some (.stop leaseId .free), w.complete leaseId)
  | .stop leaseId .free => (some (.stop leaseId .publish), (w.setWorker "AVAILABLE").release)
  | .stop leaseId .publish => (none, w.publish (.release ⟨leaseId⟩))
  | .sweep [] _ => (none, w)
  | .sweep (leaseId :: rest) .complete => (some (.sweep (leaseId :: rest) .free), w.complete leaseId)
  | .sweep (leaseId :: rest) .free =>
    (some (.sweep (leaseId :: rest) .publish), w.setWorker "AVAILABLE")
  | .sweep (leaseId :: rest) .publish =>
    (some (.sweep rest .complete), w.publish (.release ⟨leaseId⟩))
  | .command newState payload .get =>
    if w.worker.isNone then (none, w) else (some (.command newState payload .update), w)
  | .command newState payload .update =>
    (some (.command newState payload .publish), match newState with
      | some state => w.setWorker state
      | none => w)
  | .command _ payload .publish => (none, w.publish payload.op)

/-- `_on_mqtt_message`. A heartbeat and a block change nothing that is kept here. -/
def Handler.ofMessage : Message → Option (Handler keccak256)
  | .register _ _ => some (.register .upsert)
  | .statusUpdate state _ => if state = "" then none else some (.statusUpdate state)
  | .offline => some (.statusUpdate "offline")
  | .heartbeat _ _ _ _ => none
  | .blockFound _ _ _ _ _ => none

/-- The connection waits for this handler before it reads the rig's next message. -/
def Handler.ofConnection : Handler keccak256 → Bool
  | .register _ => true
  | .statusUpdate _ => true
  | _ => false

def Handler.isSweep : Handler keccak256 → Bool
  | .sweep _ _ => true
  | _ => false

/-! ## Events -/

variable (keccak256)

inductive Event
  | rent (task : ValidTask keccak256)
  | stopLease (leaseId : String)
  /-- the watchdog of the platform -/
  | sweep
  | command (command : WalletCommand) (params : WalletParams)
  /-- the platform takes the rig's next message -/
  | receive
  /-- a handler runs to its next `await` -/
  | run (i : Nat)
  /-- the rig handles the next command -/
  | deliver
  | watchdogTick
  | announce
  | advance (nanos : Nat)

variable {keccak256}

namespace World

def env (w : World keccak256) : PlatformEnv := ⟨w.now, true⟩

def spawn (w : World keccak256) (h : Handler keccak256) : World keccak256 :=
  { w with handlers := w.handlers ++ [some h] }

def running (w : World keccak256) (p : Handler keccak256 → Bool) : Bool :=
  w.handlers.any fun h => h.any p

/-- The stage of `verify_envelope` that looks at the clock. -/
def tooLate (w : World keccak256) (sent : Sent) : Bool :=
  decide (sent.expiresAt < w.now / NANOS_PER_SEC)

def runHandler (w : World keccak256) (i : Nat) (h : Handler keccak256) : World keccak256 :=
  { (h.step w).2 with handlers := (h.step w).2.handlers.set i (h.step w).1 }

def deliver (w : World keccak256) (sent : Sent) (rest : List Sent) : World keccak256 :=
  { w with
    toRig := rest
    rig := if w.tooLate sent then w.rig else w.rig.perform keccak256 ⟨sent.op, w.env⟩ }

/-- An event that cannot happen changes nothing. -/
def step (w : World keccak256) : Event keccak256 → World keccak256
  | .rent task => w.spawn (.rent task .acquire)
  | .stopLease leaseId => w.spawn (.stop leaseId .acquire)
  | .sweep => if w.running Handler.isSweep then w else w.spawn (.sweep w.expired .complete)
  | .command command params =>
    let newState := command.newState params
    if newState.all VALID_WORKER_STATES.contains then
      match controlPayload newState params.config with
      | some payload => w.spawn (.command newState payload .get)
      | none => w
    else w
  | .receive =>
    if w.running Handler.ofConnection then w
    else match w.rig.sent[w.handled]? with
      | none => w
      | some msg =>
        match Handler.ofMessage msg with
        | none => { w with handled := w.handled + 1 }
        | some h => { w with handled := w.handled + 1 }.spawn h
  | .run i =>
    match w.handlers[i]?.join with
    | none => w
    | some h => w.runHandler i h
  | .deliver =>
    match w.toRig with
    | [] => w
    | sent :: rest => w.deliver sent rest
  | .watchdogTick => { w with rig := w.rig.perform keccak256 ⟨.watchdogTick, w.env⟩ }
  | .announce => { w with rig := w.rig.announce w.env }
  | .advance nanos => { w with now := w.now + nanos }

/-- No message in flight and no handler running. -/
def Quiet (w : World keccak256) : Prop :=
  w.toRig = [] ∧ w.handled = w.rig.sent.length ∧ ∀ h ∈ w.handlers, h = none

/-- The lease is paid for at this moment. -/
def Billed (w : World keccak256) (row : LeaseRow keccak256) : Prop :=
  row.state = .active ∧ w.now < row.endsAt

instance (w : World keccak256) (row : LeaseRow keccak256) : Decidable (w.Billed row) :=
  inferInstanceAs (Decidable (_ ∧ _))

end World

variable (keccak256)

/-- A platform without an active lease, and a rig to be started. -/
structure Outset where
  lifetimeSec : Nat
  now : Nat
  worker : Option String
  leases : List (LeaseRow keccak256)
  config : PlatformConfig
  base : MiningIdentity
  difficulty : Int
  distinct : (leases.map LeaseRow.leaseId).Nodup
  closed : ∀ row ∈ leases, row.state ≠ .active

variable {keccak256}

/-- The world when the rig has started. -/
def Outset.start (o : Outset keccak256) : World keccak256 where
  lifetimeSec := o.lifetimeSec
  now := o.now
  worker := o.worker
  leases := o.leases
  locked := false
  handlers := []
  toRig := []
  rig := .started o.config o.base o.difficulty ⟨o.now, true⟩
  handled := 0

end TreeMiner.Matching
