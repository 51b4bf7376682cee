import TreeMiner.Platform.Dispatch

/-! What a payload that is refused leaves behind, and what a `set_config` that is accepted
changes. Every check of a handler comes before its first assignment. -/

namespace TreeMiner

/-! ## One handler at a time -/

namespace PlatformManager

variable {keccak256 : List UInt8 → Vector UInt8 32} {m : PlatformManager} {env : PlatformEnv}
  {reason : RejectReason}

theorem handleRegisterAck_ok (ack : RegisterAck) :
    (m.handleRegisterAck ack env).1 = .ok () := by
  unfold handleRegisterAck
  split_ifs <;> rfl

theorem handleAssignTask_rejected {task : AssignTask}
    (h : (m.handleAssignTask keccak256 task env).1 = .error reason) :
    (m.handleAssignTask keccak256 task env).2 = m := by
  unfold handleAssignTask at h ⊢
  split_ifs at h ⊢
  · rfl
  · rfl
  · rfl
  · rfl
  · rfl
  · -- from here on the task is taken, or the rig reports the error state
    dsimp only at h
    split at h <;> cases h

theorem handleRelease_rejected {release : Release}
    (h : (m.handleRelease release env).1 = .error reason) :
    (m.handleRelease release env).2 = m := by
  unfold handleRelease at h ⊢
  split_ifs at h ⊢
  · rfl
  · cases hlease : m.leases.current with
    | none => rfl
    | some current =>
      rw [hlease] at h
      dsimp only at h ⊢
      split_ifs at h ⊢
      rfl

theorem handleSetConfig_rejected {config : SetConfig}
    (h : (m.handleSetConfig keccak256 config).1 = .error reason) :
    (m.handleSetConfig keccak256 config).2 = m := by
  unfold handleSetConfig at h ⊢
  split_ifs at h ⊢
  · rfl
  · rfl
  · rfl
  · rfl

end PlatformManager

/-! ## A whole payload -/

namespace PlatformNode

section

variable {keccak256 : List UInt8 → Vector UInt8 32}
variable {hmacSha256 : String → String → Vector UInt8 32} {render : Value → String}
variable {fromSlice : List UInt8 → Option Value}
variable {n : PlatformNode} {env : PlatformEnv} {now : Int} {e : PayloadError}

theorem answered_rejected {reply : Reply} (h : (n.answered reply).1 = .error e)
    (hreply : ∀ reason, reply.1 = .error reason → reply.2 = n.mgr) : (n.answered reply).2 = n := by
  obtain ⟨result, m⟩ := reply
  cases result with
  | ok _ => cases h
  | error reason =>
    obtain rfl : m = n.mgr := hreply reason rfl
    rfl

theorem answered_ok {reply : Reply} (h : (n.answered reply).1 = .ok ()) : reply.1 = .ok () := by
  obtain ⟨result, m⟩ := reply
  cases result with
  | ok _ => rfl
  | error reason => cases h

theorem handleControl_rejected {action : ControlAction}
    (h : (n.handleControl keccak256 action env).1 = .error e) :
    (n.handleControl keccak256 action env).2 = n := by
  cases action with
  | pause => cases h
  | resume => cases h
  | shutdown => cases h
  | setConfig config =>
    exact answered_rejected h fun _ => PlatformManager.handleSetConfig_rejected

theorem handleCommand_rejected {cmd : Command}
    (h : (n.handleCommand keccak256 cmd env).1 = .error e) :
    (n.handleCommand keccak256 cmd env).2 = n := by
  cases cmd with
  | registerAck ack =>
    refine answered_rejected h fun reason hr => ?_
    rw [PlatformManager.handleRegisterAck_ok] at hr
    cases hr
  | assignTask task => exact answered_rejected h fun _ => PlatformManager.handleAssignTask_rejected
  | release release => exact answered_rejected h fun _ => PlatformManager.handleRelease_rejected
  | control action => exact handleControl_rejected h

/-- Authorisation writes the nonce cache and nothing else. -/
theorem authorizeCommand_nonces (msg : Value) :
    ∃ nonces, (n.authorizeCommand hmacSha256 render msg now).2 = { n with nonces } := by
  unfold authorizeCommand
  split
  · split
    · exact ⟨_, rfl⟩
    · exact ⟨_, rfl⟩
  · split_ifs
    · exact ⟨n.nonces, rfl⟩
    · exact ⟨n.nonces, rfl⟩

/-- A payload goes to a handler only once it is authorised and read. -/
theorem tryHandlePayload_cases (payload : List UInt8) :
    (∃ e nonces, n.tryHandlePayload keccak256 hmacSha256 render fromSlice payload env now =
      (.error e, { n with nonces })) ∨
    ∃ msg cmd nonces, valueFromPayload fromSlice payload = .ok msg ∧
      (n.authorizeCommand hmacSha256 render msg now) = (.ok (), { n with nonces }) ∧
      commandFromValue msg = .ok cmd ∧
      n.tryHandlePayload keccak256 hmacSha256 render fromSlice payload env now =
        { n with nonces }.handleCommand keccak256 cmd env := by
  unfold tryHandlePayload
  cases hmsg : valueFromPayload fromSlice payload with
  | error e => exact Or.inl ⟨_, n.nonces, rfl⟩
  | ok msg =>
    dsimp only
    obtain ⟨nonces, hauth⟩ := @authorizeCommand_nonces hmacSha256 render n now msg
    rcases h : n.authorizeCommand hmacSha256 render msg now with ⟨answer, n'⟩
    rw [h] at hauth
    obtain rfl : n' = { n with nonces } := hauth
    cases answer with
    | error e => exact Or.inl ⟨e, nonces, rfl⟩
    | ok u =>
      dsimp only
      cases hcmd : commandFromValue msg with
      | error e => exact Or.inl ⟨_, nonces, rfl⟩
      | ok cmd => exact Or.inr ⟨msg, cmd, nonces, rfl, h, hcmd, rfl⟩

theorem tryHandlePayload_rejected {payload : List UInt8}
    (h : (n.tryHandlePayload keccak256 hmacSha256 render fromSlice payload env now).1 = .error e) :
    ∃ nonces, (n.tryHandlePayload keccak256 hmacSha256 render fromSlice payload env now).2 =
      { n with nonces } := by
  rcases @tryHandlePayload_cases keccak256 hmacSha256 render fromSlice n env now payload with
    ⟨e', nonces, heq⟩ | ⟨msg, cmd, nonces, -, -, -, heq⟩
  · rw [heq]
    exact ⟨nonces, rfl⟩
  · rw [heq] at h ⊢
    exact ⟨nonces, handleCommand_rejected h⟩

end

end PlatformNode

/-! ## `set_config` -/

/-- What the handler demands of each field that is there. -/
structure SetConfig.Valid (keccak256 : List UInt8 → Vector UInt8 32) (config : SetConfig) :
    Prop where
  difficulty : ∀ d ∈ config.difficulty, MIN_DIFFICULTY ≤ d ∧ d ≤ MAX_DIFFICULTY
  address : ∀ a ∈ config.address, isValidEthereumAddress keccak256 a = true
  keyPrefix : ∀ p ∈ config.keyPrefix, p = "" ∨ isHexString p 1 MAX_SELF_PREFIX_LEN = true
  blockPattern : ∀ p ∈ config.blockPattern,
    p = "" ∨ isSafeIdentifier p 1 MAX_BLOCK_PATTERN_LEN = true

/-- Every field that is there has its value, and nothing else of the node has changed but the
nonce cache and the heartbeat that tells of it. -/
structure SetConfig.Applied (config : SetConfig) (n n' : PlatformNode) : Prop where
  difficulty : n'.mgr.coordinator.difficulty =
    config.difficulty.getD n.mgr.coordinator.difficulty
  address : n'.mgr.coordinator.identity.userAddress =
    config.address.getD n.mgr.coordinator.identity.userAddress
  keyPrefix : n'.mgr.coordinator.identity.selfMiningPrefix =
    config.keyPrefix.getD n.mgr.coordinator.identity.selfMiningPrefix
  blockPattern : n'.mgr.coordinator.identity.testBlockPattern =
    config.blockPattern.getD n.mgr.coordinator.identity.testBlockPattern
  context : n'.mgr.coordinator.context = n.mgr.coordinator.context
  rest : n' = { n with
    nonces := n'.nonces
    mgr := { n.mgr with coordinator := n'.mgr.coordinator, sent := n'.mgr.sent } }

/-- The message is a `set_config`: no task command, and that action. -/
structure Value.SetsConfig (msg : Value) : Prop where
  isObject : msg.isObject = true
  command : msg.get "command" = none ∨ ∃ c, msg.get "command" = some (.string c) ∧
    c.utf8ByteSize ≤ MAX_COMMAND_FIELD ∧ c ∉ ["register_ack", "assign_task", "release"]
  action : msg.get "action" = some (.string "set_config")

/-- The fields of its `config`, where each has the type it should have. -/
def Value.configFields (msg : Value) : Option SetConfig :=
  msg.fieldOr "config" setConfigFromValue ⟨none, none, none, none⟩

section

variable {keccak256 : List UInt8 → Vector UInt8 32}

theorem handleSetConfig_ok_iff (m : PlatformManager) (config : SetConfig) :
    (m.handleSetConfig keccak256 config).1 = .ok () ↔ config.Valid keccak256 := by
  have htext : ∀ (p : String) (ok : Bool), (!p.isEmpty && !ok) = false ↔ p = "" ∨ ok = true := by
    intro p ok
    rw [← String.isEmpty_iff]
    cases p.isEmpty <;> cases ok <;> decide
  have hrange : ∀ d : Int, (!(decide (MIN_DIFFICULTY ≤ d) && decide (d ≤ MAX_DIFFICULTY))) = false ↔
      MIN_DIFFICULTY ≤ d ∧ d ≤ MAX_DIFFICULTY := by
    intro d
    simp
  have hany : ∀ {α : Type} (o : Option α) (bad : α → Bool),
      o.any bad = false ↔ ∀ x ∈ o, bad x = false := by
    intro α o bad
    cases o <;> simp
  unfold PlatformManager.handleSetConfig
  constructor
  · intro h
    split_ifs at h with h1 h2 h3 h4
    simp only [Bool.not_eq_true, hany, hrange, htext, Bool.not_eq_false'] at h1 h2 h3 h4
    exact ⟨h1, h2, h3, h4⟩
  · rintro ⟨h1, h2, h3, h4⟩
    rw [if_neg, if_neg, if_neg, if_neg]
    · simpa only [Bool.not_eq_true, hany, htext] using h4
    · simpa only [Bool.not_eq_true, hany, htext] using h3
    · simpa only [Bool.not_eq_true, hany, Bool.not_eq_false'] using h2
    · simpa only [Bool.not_eq_true, hany, hrange] using h1

theorem commandFromValue_setsConfig {msg : Value} (h : msg.SetsConfig) :
    commandFromValue msg = named "control" .control (msg.configFields.map .setConfig) := by
  have hcontrol : controlCommand msg =
      named "control" .control (msg.configFields.map .setConfig) := by
    have hsize : ¬ "set_config".utf8ByteSize > MAX_ACTION_FIELD := by decide
    unfold controlCommand
    rw [h.action]
    dsimp only
    rw [if_neg hsize, if_pos (by simp)]
    rfl
  unfold commandFromValue
  rw [h.isObject]
  rcases h.command with hnone | ⟨c, hc, hsize, hother⟩
  · rw [hnone, ← hcontrol]
    rfl
  · simp only [List.mem_cons, List.not_mem_nil, or_false, not_or] at hother
    rw [hc, ← hcontrol]
    dsimp only
    unfold commandNamed
    rw [if_neg (not_lt.2 hsize), if_neg hother.1, if_neg hother.2.1, if_neg hother.2.2]
    rfl

theorem handleSetConfig_applied {m : PlatformManager} {config : SetConfig}
    (h : (m.handleSetConfig keccak256 config).1 = .ok ()) :
    (m.handleSetConfig keccak256 config).2 =
      ((m.setDifficulty config.difficulty).setIdentity config).publishHeartbeat := by
  unfold PlatformManager.handleSetConfig at h ⊢
  split_ifs at h ⊢
  rfl

theorem applied_publishHeartbeat (n : PlatformNode) (nonces : NonceCache) (config : SetConfig) :
    config.Applied n ({ n with nonces }.withMgr
      ((n.mgr.setDifficulty config.difficulty).setIdentity config).publishHeartbeat) := by
  cases hd : config.difficulty with
  | none => exact ⟨by rw [hd]; rfl, rfl, rfl, rfl, rfl, rfl⟩
  | some d => exact ⟨by rw [hd]; rfl, rfl, rfl, rfl, rfl, rfl⟩

end

/-- A payload that is refused changes nothing but the nonce cache. A `set_config` that is
accepted has only valid fields and applies them all and nothing else; one with an invalid
field, by its value or by its type, applies none. -/
theorem rejected_changes_nothing (keccak256 : List UInt8 → Vector UInt8 32)
    (hmacSha256 : String → String → Vector UInt8 32) (render : Value → String)
    (fromSlice : List UInt8 → Option Value) (n : PlatformNode) (payload : List UInt8)
    (env : PlatformEnv) (now : Int) :
    let r := n.tryHandlePayload keccak256 hmacSha256 render fromSlice payload env now
    ((∃ e, r.1 = .error e) → ∃ nonces, r.2 = { n with nonces }) ∧
    ∀ msg, valueFromPayload fromSlice payload = .ok msg → msg.SetsConfig →
      (r.1 = .ok () → ∃ config, msg.configFields = some config ∧ config.Valid keccak256 ∧
        config.Applied n r.2) ∧
      ((¬ ∃ config, msg.configFields = some config ∧ config.Valid keccak256) →
        (∃ e, r.1 = .error e) ∧ ∃ nonces, r.2 = { n with nonces }) := by
  intro r
  have hrejected : (∃ e, r.1 = .error e) → ∃ nonces, r.2 = { n with nonces } :=
    fun ⟨e, he⟩ => PlatformNode.tryHandlePayload_rejected he
  refine ⟨hrejected, fun msg hmsg hset => ?_⟩
  have haccepted : r.1 = .ok () → ∃ config, msg.configFields = some config ∧
      config.Valid keccak256 ∧ config.Applied n r.2 := by
    intro hok
    rcases @PlatformNode.tryHandlePayload_cases keccak256 hmacSha256 render fromSlice n env now
      payload with ⟨e, nonces, heq⟩ | ⟨msg', cmd, nonces, hmsg', -, hcmd, heq⟩
    · rw [show r = _ from heq] at hok
      cases hok
    · obtain rfl : msg = msg' := Except.ok.inj (hmsg.symm.trans hmsg')
      rw [commandFromValue_setsConfig hset] at hcmd
      cases hfields : msg.configFields with
      | none =>
        rw [hfields] at hcmd
        cases hcmd
      | some config =>
        rw [hfields] at hcmd
        obtain rfl := Except.ok.inj hcmd
        rw [show r = _ from heq] at hok ⊢
        have hhandled : (n.mgr.handleSetConfig keccak256 config).1 = .ok () :=
          @PlatformNode.answered_ok { n with nonces } _ hok
        refine ⟨config, rfl, (handleSetConfig_ok_iff _ _).1 hhandled, ?_⟩
        have happlied := applied_publishHeartbeat n nonces config
        rw [← handleSetConfig_applied hhandled] at happlied
        exact happlied
  refine ⟨haccepted, fun hinvalid => ?_⟩
  have herror : ∃ e, r.1 = .error e := by
    cases hr : r.1 with
    | error e => exact ⟨e, rfl⟩
    | ok u =>
      obtain ⟨config, hfields, hvalid, -⟩ := haccepted hr
      exact absurd ⟨config, hfields, hvalid⟩ hinvalid
  exact ⟨herror, hrejected herror⟩

/-- A rig with a secret, and a command signed for it. -/
def signedNode : PlatformNode :=
  .new (.new ⟨"rig-1", "0x0000000000000000000000000000000000000000", []⟩
    ⟨"", "", "", 0, "", none⟩ 100) (some "secret") 4 16

def signedConfig (config : List (String × Value)) : Value :=
  signCommand (fun _ _ => Vector.replicate 32 7) (fun _ => "set_config")
    (.object [("action", .string "set_config"), ("config", .object config)]) "secret" "rig-1"
    "cmd-1" "00112233445566aa" 1000 1060

def handledBySigned (msg : Value) : Except PayloadError Unit × PlatformNode :=
  signedNode.tryHandlePayload (fun _ => Vector.replicate 32 0) (fun _ _ => Vector.replicate 32 7)
    (fun _ => "set_config") (fun _ => some msg) [] ⟨0, true⟩ 1005

/-- A valid difficulty alone is applied; beside a prefix that is no hex text it is not. -/
theorem rejected_changes_nothing_mixed :
    (handledBySigned (signedConfig [("difficulty", .number (.int 500))])).2.mgr.coordinator.difficulty
      = 500 ∧
    ∃ nonces, (handledBySigned (signedConfig [("difficulty", .number (.int 500)),
      ("prefix", .string "xyz")])).2 = { signedNode with nonces } := by
  have hhandled := fun msg => rejected_changes_nothing (fun _ => Vector.replicate 32 0)
    (fun _ _ => Vector.replicate 32 7) (fun _ => "set_config") (fun _ => some msg) signedNode []
    ⟨0, true⟩ 1005
  constructor
  · obtain ⟨config, hfields, -, happlied⟩ :=
      ((hhandled (signedConfig [("difficulty", .number (.int 500))])).2 _ rfl
        ⟨rfl, Or.inl rfl, rfl⟩).1 (by rfl)
    obtain rfl := Option.some.inj (hfields.symm.trans (show _ = some ⟨some 500, none, none, none⟩
      from rfl))
    exact happlied.difficulty
  · refine (((hhandled _).2 _ rfl ⟨rfl, Or.inl rfl, rfl⟩).2 ?_).2
    rintro ⟨config, hfields, hvalid⟩
    obtain rfl := Option.some.inj (hfields.symm.trans (show _ = some ⟨some 500, none, some "xyz",
      none⟩ from rfl))
    exact absurd (hvalid.keyPrefix "xyz" rfl) (by decide)

end TreeMiner
