import TreeMiner.Platform.Manager

/-! From a payload to a command: the size cap, the JSON object, and the typed reading of
its fields. An absent field takes its default; a field of another type fails. -/

namespace TreeMiner

inductive ParseError
  | tooLarge (size cap : Nat)
  | notJson
  | notObject
  | oversizedCommand
  | oversizedAction
  | unknownAction
  | malformed (command : String)
deriving DecidableEq, Repr

inductive ControlAction
  | pause
  | resume
  | shutdown
  | setConfig (config : SetConfig)
deriving DecidableEq, Repr

inductive Command
  | registerAck (ack : RegisterAck)
  | assignTask (task : AssignTask)
  | release (release : Release)
  | control (action : ControlAction)
deriving DecidableEq, Repr

def MAX_COMMAND_FIELD : Nat := 64

def MAX_ACTION_FIELD : Nat := 32

/-! ## `serde_json::from_value` of the command structs -/

namespace Value

def asBool : Value → Option Bool
  | .bool b => some b
  | _ => none

def asI64 : Value → Option Int
  | .number n => n.asI64
  | _ => none

def asString : Value → Option String
  | .string s => some s
  | _ => none

/-- An `Option` field takes `null` for its absence. -/
def orNull {α : Type} (read : Value → Option α) : Value → Option (Option α)
  | .null => some none
  | v => (read v).map some

/-- A field with a default. -/
def fieldOr {α : Type} (msg : Value) (key : String) (read : Value → Option α) (default : α) :
    Option α :=
  match msg.get key with
  | none => some default
  | some v => read v

end Value

/-- The `reason` must be a text; it is only logged. -/
def registerAckFromValue (msg : Value) : Option RegisterAck := do
  let accepted ← msg.fieldOr "accepted" Value.asBool false
  let _ ← msg.fieldOr "reason" Value.asString ""
  some ⟨accepted⟩

def assignTaskFromValue (msg : Value) : Option AssignTask := do
  let leaseId ← msg.fieldOr "lease_id" Value.asString ""
  let consumerId ← msg.fieldOr "consumer_id" Value.asString ""
  let consumerAddress ← msg.fieldOr "consumer_address" Value.asString ""
  let keyPrefix ← msg.fieldOr "prefix" Value.asString ""
  let durationSec ← msg.fieldOr "duration_sec" Value.asI64 3600
  some ⟨leaseId, consumerId, consumerAddress, keyPrefix, durationSec⟩

def releaseFromValue (msg : Value) : Option Release := do
  let leaseId ← msg.fieldOr "lease_id" Value.asString ""
  some ⟨leaseId⟩

/-- A derived struct is read from an object by names, from an array by positions. -/
def setConfigFromValue (config : Value) : Option SetConfig :=
  match config with
  | .object _ => do
    let difficulty ← config.fieldOr "difficulty" (Value.orNull Value.asI64) none
    let address ← config.fieldOr "address" (Value.orNull Value.asString) none
    let keyPrefix ← config.fieldOr "prefix" (Value.orNull Value.asString) none
    let blockPattern ← config.fieldOr "block_pattern" (Value.orNull Value.asString) none
    some ⟨difficulty, address, keyPrefix, blockPattern⟩
  | .array [difficulty, address, keyPrefix, blockPattern] => do
    let difficulty ← Value.orNull Value.asI64 difficulty
    let address ← Value.orNull Value.asString address
    let keyPrefix ← Value.orNull Value.asString keyPrefix
    let blockPattern ← Value.orNull Value.asString blockPattern
    some ⟨difficulty, address, keyPrefix, blockPattern⟩
  | _ => none

/-- The control message of one of the four known actions. -/
def controlFromValue (msg : Value) (action : String) : Option ControlAction :=
  if action = "pause" then some .pause
  else if action = "resume" then some .resume
  else if action = "shutdown" then some .shutdown
  else (msg.fieldOr "config" setConfigFromValue ⟨none, none, none, none⟩).map .setConfig

/-! ## Dispatch by `command`, else by `action` -/

/-- The answer of a typed read, under the name it fails with. -/
def named {α : Type} (name : String) (make : α → Command) : Option α → Except ParseError Command
  | some x => .ok (make x)
  | none => .error (.malformed name)

def controlCommand (msg : Value) : Except ParseError Command :=
  match msg.get "action" with
  | none => .error .unknownAction
  | some (.string action) =>
    if action.utf8ByteSize > MAX_ACTION_FIELD then .error .oversizedAction
    else if action = "pause" ∨ action = "resume" ∨ action = "shutdown" ∨ action = "set_config" then
      named "control" .control (controlFromValue msg action)
    else .error .unknownAction
  | some _ => .error (.malformed "action")

def commandNamed (msg : Value) (command : String) : Except ParseError Command :=
  if command.utf8ByteSize > MAX_COMMAND_FIELD then .error .oversizedCommand
  else if command = "register_ack" then
    named "register_ack" .registerAck (registerAckFromValue msg)
  else if command = "assign_task" then named "assign_task" .assignTask (assignTaskFromValue msg)
  else if command = "release" then named "release" .release (releaseFromValue msg)
  else controlCommand msg

def commandFromValue (msg : Value) : Except ParseError Command :=
  if !msg.isObject then .error .notObject
  else
    match msg.get "command" with
    | some (.string command) => commandNamed msg command
    | some _ => .error (.malformed "command")
    | none => commandNamed msg ""

/-- `value_from_payload`: the cap comes before the parser, which is `serde_json`'s. -/
def valueFromPayload (fromSlice : List UInt8 → Option Value) (payload : List UInt8) :
    Except ParseError Value :=
  if payload.length > MAX_PAYLOAD_BYTES then .error (.tooLarge payload.length MAX_PAYLOAD_BYTES)
  else
    match fromSlice payload with
    | none => .error .notJson
    | some v => if !v.isObject then .error .notObject else .ok v

/-! ## What the unsigned policy lets through -/

/-- The commands that move no money: they change neither payout nor mining. -/
inductive Command.Harmless : Command → Prop
  | ack (ack : RegisterAck) : Harmless (.registerAck ack)
  | release (release : Release) : Harmless (.release release)
  | pause : Harmless (.control .pause)
  | resume : Harmless (.control .resume)

variable {msg : Value} {cmd : Command}

theorem named_ok {α : Type} {name : String} {make : α → Command} {x : Option α}
    (h : named name make x = .ok cmd) : ∃ a, cmd = make a := by
  cases x with
  | none => cases h
  | some a => cases h; exact ⟨a, rfl⟩

/-- A control message read under an action `pause` or `resume` is that action. -/
theorem controlCommand_harmless
    (ha : (stringField msg "action").getD "" = "pause" ∨
      (stringField msg "action").getD "" = "resume")
    (h : controlCommand msg = .ok cmd) : cmd.Harmless := by
  unfold controlCommand at h
  unfold stringField at ha
  split at h
  · cases h
  · next action hget =>
    simp only [hget, Option.getD_some] at ha
    split_ifs at h
    rcases ha with rfl | rfl
    · simp [controlFromValue, named] at h
      exact h ▸ .pause
    · simp [controlFromValue, named] at h
      exact h ▸ .resume
  · cases h

/-- What the policy holds for harmless, by the command it reads. -/
theorem command_of_not_mutating (h : isMutatingCommand msg = false) :
    (stringField msg "command").getD "" = "register_ack" ∨
      (stringField msg "command").getD "" = "release" ∨
      (stringField msg "command").getD "" = "" ∧
        ((stringField msg "action").getD "" = "pause" ∨
          (stringField msg "action").getD "" = "resume") := by
  unfold isMutatingCommand at h
  dsimp only at h
  split_ifs at h with _ hcmd hempty
  · rcases hcmd with hcmd | hcmd
    · exact Or.inl hcmd
    · exact Or.inr (Or.inl hcmd)
  · refine Or.inr (Or.inr ⟨String.isEmpty_iff.1 hempty, ?_⟩)
    simpa only [Bool.not_eq_false', Bool.or_eq_true, decide_eq_true_eq] using h

/-- The two readers agree: what the policy does not hold for mutating is parsed, if at
all, to a harmless command. -/
theorem harmless_of_not_mutating (hm : isMutatingCommand msg = false)
    (h : commandFromValue msg = .ok cmd) : cmd.Harmless := by
  have hread : ∃ command, (stringField msg "command").getD "" = command ∧
      commandNamed msg command = .ok cmd := by
    unfold commandFromValue at h
    unfold stringField
    split_ifs at h
    split at h
    · next command hget => exact ⟨command, by rw [hget]; rfl, h⟩
    · cases h
    · next hget => exact ⟨"", by rw [hget]; rfl, h⟩
  obtain ⟨command, hcmd, hnamed⟩ := hread
  have hpolicy := command_of_not_mutating hm
  rw [hcmd] at hpolicy
  unfold commandNamed at hnamed
  rcases hpolicy with rfl | rfl | ⟨rfl, haction⟩
  · rw [if_neg (by decide), if_pos rfl] at hnamed
    obtain ⟨ack, rfl⟩ := named_ok hnamed
    exact .ack ack
  · rw [if_neg (by decide), if_neg (by decide), if_neg (by decide), if_pos rfl] at hnamed
    obtain ⟨release, rfl⟩ := named_ok hnamed
    exact .release release
  · rw [if_neg (by decide), if_neg (by decide), if_neg (by decide), if_neg (by decide)] at hnamed
    exact controlCommand_harmless haction hnamed

end TreeMiner
