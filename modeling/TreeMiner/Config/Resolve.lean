import TreeMiner.Config.App
import TreeMiner.Submit.Manager

/-! The command line and `config.txt`, settled into one configuration: a flag before the
file, the file before a default, and the identity as `AppConfig` keeps it. -/

namespace TreeMiner

/-- `MarginMode::parse`, whatever the case of the letters. -/
def MarginMode.parse (text : String) : Option MarginMode :=
  let lower := String.ofList (text.toList.map toAsciiLowercase)
  if lower ∈ ["off", "none", "disabled"] then some .off
  else if lower ∈ ["fixed", "static", "constant"] then some .fixed
  else if lower ∈ ["auto", "adaptive"] then some .auto
  else none

def MarginMode.asStr : MarginMode → String
  | .off => "off"
  | .fixed => "fixed"
  | .auto => "auto"

namespace Config

def DEFAULT_RPC_LINK : String := "http://xenblocks.io"

def DEFAULT_DASHBOARD_BIND : String := "0.0.0.0"

def DEFAULT_DASHBOARD_PORT : Nat := 42069

def DEFAULT_JOURNAL_PATH : String := "treeminer-journal.db"

def DEFAULT_CPU_MAX_DIFFICULTY : Nat := 100

def DEFAULT_DIFFICULTY_QUIESCE_MS : Int := 5000

def MAX_CONFIGURED_KIB : Int := 100000000

def FALLBACK_DIFFICULTY : Nat := 42069

def NULL_ADDRESS : String := "0x0000000000000000000000000000000000000000"

/-! ## The command line -/

/-- The flags; `some` is what the operator typed. -/
structure Cli where
  totalDevFee : Option Int
  ecoDevAddr : Option String
  minerAddr : Option String
  execute : Bool
  donotupload : Bool
  device : Option String
  saveConfig : Bool
  testFixedDiff : Option Int
  rpcLink : Option String
  customName : Option String
  platformMode : Bool
  mqttBroker : Option String
  workerId : Option String
  testBlockPattern : Option String
  batchSize : Option Int
  difficultyMarginMode : Option String
  difficultyMargin : Option Int
  difficultyMarginMax : Option Int
  journalPath : Option String
  gpuStreams : Option Int
  cpuWorkers : Option Int
  cpuMaxDifficulty : Option Int
  difficultyQuiesceMs : Option Int
  dashboardBind : Option String
  dashboardPort : Option Int
  display : Option String

/-- A command line without flags. -/
def Cli.empty : Cli where
  totalDevFee := none
  ecoDevAddr := none
  minerAddr := none
  execute := false
  donotupload := false
  device := none
  saveConfig := false
  testFixedDiff := none
  rpcLink := none
  customName := none
  platformMode := false
  mqttBroker := none
  workerId := none
  testBlockPattern := none
  batchSize := none
  difficultyMarginMode := none
  difficultyMargin := none
  difficultyMarginMax := none
  journalPath := none
  gpuStreams := none
  cpuWorkers := none
  cpuMaxDifficulty := none
  difficultyQuiesceMs := none
  dashboardBind := none
  dashboardPort := none
  display := none

inductive ResolveError
  | dashboardPort (port : Int)
  | displayMode
  | marginMode (text : String)
  | valueOutOfRange (key text : String)
  | valueNotANumber (key text : String)
  | dashboardBind (bind : String)
  | gpuStreams (requested : Int)
  | cpuWorkers (requested : Int) (ceiling : Nat)
  | cpuMaxDifficulty (requested : Int)
  | difficultyQuiesce (requested : Int)
  | totalDevFee (requested : Int)
  | ecoDevAddr (address : String)
  | minerAddr (address : String)
  | platformModeWithoutBroker
  | config (text : String)
deriving DecidableEq, Repr

/-- The `#[error]` texts. -/
def ResolveError.text : ResolveError → String
  | .dashboardPort port => s!"Invalid dashboard port '{port}'."
  | .displayMode => "The display mode must be logs, terminal, or prompt."
  | .marginMode text =>
    s!"Invalid difficulty margin mode '{text}' (expected: off | fixed | auto)."
  | .valueOutOfRange key text => s!"Value for {key} ({text}) is out of range (0-100000000)."
  | .valueNotANumber key text => s!"Value for {key} ({text}) is not a number."
  | .dashboardBind bind =>
    s!"Invalid dashboard bind address '{bind}': expected an IPv4 or IPv6 address."
  | .gpuStreams requested => s!"The argument ({requested}) for GPU streams must be 1 or 2."
  | .cpuWorkers requested ceiling =>
    s!"The argument ({requested}) for CPU workers must be between 0 and {ceiling}."
  | .cpuMaxDifficulty requested =>
    s!"The argument ({requested}) for the CPU difficulty ceiling must be 0-100000000."
  | .difficultyQuiesce requested =>
    s!"The argument ({requested}) for the difficulty quiesce must be 0-{QUIESCE_MAX_MS} ms."
  | .totalDevFee requested =>
    s!"The argument ({requested}) for total developer fee (0-1000) is invalid."
  | .ecoDevAddr address =>
    s!"The argument ({address}) for ecosystem developer fee address (EIP55) is invalid."
  | .minerAddr address => s!"The argument ({address}) for miner address (EIP55) is invalid."
  | .platformModeWithoutBroker => "Platform mode requires --mqtt-broker to be set."
  | .config text => text

/-! ## Display -/

inductive DisplayMode
  | logs
  | terminal
  | prompt
deriving DecidableEq, Repr

def DisplayMode.asStr : DisplayMode → String
  | .logs => "logs"
  | .terminal => "terminal"
  | .prompt => "prompt"

def DisplayMode.parse (text : String) : Option DisplayMode :=
  if text = "logs" then some .logs
  else if text = "terminal" then some .terminal
  else if text = "prompt" then some .prompt
  else none

structure DisplayEnv where
  stdoutIsTty : Bool
  noTuiEnv : Bool
  invocationIdEnv : Bool

def tuiForbidden (env : DisplayEnv) : Bool :=
  env.noTuiEnv || env.invocationIdEnv || !env.stdoutIsTty

structure DisplayDecision where
  mode : DisplayMode
  warning : Option String
  promptRequired : Bool

/-- Nobody is asked where the terminal is forbidden. -/
def resolveDisplayMode (requested : DisplayMode) (env : DisplayEnv) : DisplayDecision :=
  if tuiForbidden env && requested != .logs then
    { mode := .logs
      warning := some ("Display '" ++ requested.asStr ++
        "' is disabled for service/non-interactive runs; using logs.")
      promptRequired := false }
  else { mode := requested, warning := none, promptRequired := requested == .prompt }

def resolvePromptSelection (selection : String) (env : DisplayEnv) : DisplayMode :=
  let chosen : DisplayMode := if trimText selection = "2" then .logs else .terminal
  if tuiForbidden env && chosen != .logs then .logs else chosen

/-- What the resolution depends on besides the file and the command line. -/
structure ResolveOptions where
  difficultyCachePath : String
  /-- the text of the difficulty cache, where there is one -/
  difficultyCache : Option String
  displayEnv : DisplayEnv
  logicalThreads : Nat
  /-- what the system answers to a write of `config.txt`, unless it succeeds -/
  writeError : Option String

/-- The mode of the display, with the operator asked where the decision says so. -/
def askDisplay (cli : Cli) (options : ResolveOptions) (prompter : Prompter) :
    Except ResolveError (DisplayMode × Option String × Prompter) :=
  match cli.display.elim (some .logs) DisplayMode.parse with
  | none => .error .displayMode
  | some requested =>
    let decision := resolveDisplayMode requested options.displayEnv
    if decision.promptRequired then
      match promptLine prompter with
      | (.error e, _) => .error (.config e)
      | (.ok selection, prompter) =>
        .ok (resolvePromptSelection (selection.getD "") options.displayEnv, decision.warning,
          prompter)
    else .ok (decision.mode, decision.warning, prompter)

/-! ## The keys of the file -/

/-- `read_positive_int`: a flag wins over the file, and nothing keeps the default. -/
def readPositiveInt (config : ConfigManager) (key : String) (flag : Option Int) (default : Nat) :
    Except ResolveError Nat :=
  let text := flag.elim (config.get key) toString
  if text.isEmpty then .ok default
  else
    match stoi text with
    | none => .error (.valueNotANumber key text)
    | some value =>
      if 0 ≤ value ∧ value ≤ MAX_CONFIGURED_KIB then .ok value.toNat
      else .error (.valueOutOfRange key text)

/-- `--dashboard-port`, or the default. -/
def portFlag (cli : Cli) : Except ResolveError Nat :=
  match cli.dashboardPort with
  | none => .ok DEFAULT_DASHBOARD_PORT
  | some port => if 1 ≤ port ∧ port ≤ 65535 then .ok port.toNat else .error (.dashboardPort port)

/-- The mode of the margin. -/
def marginMode (cli : Cli) (config : ConfigManager) : Except ResolveError MarginMode :=
  let modeText := cli.difficultyMarginMode.getD (config.get "difficulty_margin_mode")
  if modeText.isEmpty then .ok MarginConfig.default.mode
  else
    match MarginMode.parse modeText with
    | none => .error (.marginMode modeText)
    | some mode => .ok mode

def readMargin (cli : Cli) (config : ConfigManager) : Except ResolveError MarginConfig := do
  let mode ← marginMode cli config
  let marginKib ← readPositiveInt config "difficulty_margin" cli.difficultyMargin
    MarginConfig.default.marginKib
  let maxKib ← readPositiveInt config "difficulty_margin_max" cli.difficultyMarginMax
    MarginConfig.default.maxKib
  .ok { MarginConfig.default with mode, marginKib, maxKib }

def journalPathOf (cli : Cli) (config : ConfigManager) : String :=
  let journalText := cli.journalPath.getD (config.get "journal_path")
  if journalText.isEmpty then DEFAULT_JOURNAL_PATH else journalText

def dashboardBindOf (cli : Cli) (config : ConfigManager) : String :=
  match cli.dashboardBind with
  | some bind => bind
  | none =>
    let configured := config.get "dashboard_bind"
    if configured.isEmpty then DEFAULT_DASHBOARD_BIND else configured

/-- A bad port in the file is ignored. -/
def dashboardPortOf (cli : Cli) (config : ConfigManager) (port : Nat) : Nat :=
  match cli.dashboardPort with
  | some _ => port
  | none =>
    match stoi (config.get "dashboard_port") with
    | some configured => if 1 ≤ configured ∧ configured ≤ 65535 then configured.toNat else port
    | none => port

/-- What is settled with the file. -/
structure Settings where
  margin : MarginConfig
  difficultyMargin : Nat
  journalPath : String
  dashboardBind : String
  dashboardPort : Nat
deriving DecidableEq, Repr

def Settings.message (s : Settings) : List String :=
  if s.margin.mode = .off then []
  else
    let line := s!"Difficulty margin: mode={s.margin.mode.asStr} step={s.margin.marginKib} KiB"
    [if s.margin.mode = .auto then line ++ s!" max={s.margin.maxKib} KiB" else line]

/-- The half of `resolve` that reads the file. -/
def settings (isIpAddr : String → Bool) (cli : Cli) (config : ConfigManager) (port : Nat) :
    Except ResolveError Settings := do
  let margin ← readMargin cli config
  let dashboardBind := dashboardBindOf cli config
  if isIpAddr dashboardBind then
    .ok { margin
          difficultyMargin := if margin.mode = .fixed then margin.marginKib else 0
          journalPath := journalPathOf cli config
          dashboardBind
          dashboardPort := dashboardPortOf cli config port }
  else .error (.dashboardBind dashboardBind)

/-! ## Devices -/

structure Parallelism where
  gpuStreamsPerDevice : Nat
  cpuWorkerCount : Nat
  cpuMaxDifficulty : Nat
  difficultyQuiesceMs : Int
  messages : List String

def gpuStreamsOf (cli : Cli) : Except ResolveError (Nat × List String) :=
  match cli.gpuStreams with
  | none => .ok (1, [])
  | some requested =>
    if 1 ≤ requested ∧ requested ≤ 2 then
      .ok (requested.toNat, [s!"GPU streams per device: {requested.toNat}"])
    else .error (.gpuStreams requested)

def cpuWorkersOf (cli : Cli) (options : ResolveOptions) :
    Except ResolveError (Nat × List String) :=
  match cli.cpuWorkers with
  | none => .ok (0, [])
  | some requested =>
    let threads := options.logicalThreads
    if requested < 0 ∨ 0 < threads ∧ threads < requested.toNat then
      .error (.cpuWorkers requested (if 0 < threads then threads else 256))
    else .ok (requested.toNat, [s!"CPU sidecar workers: {requested.toNat}"])

def cpuMaxDifficultyOf (cli : Cli) : Except ResolveError Nat :=
  match cli.cpuMaxDifficulty with
  | none => .ok DEFAULT_CPU_MAX_DIFFICULTY
  | some requested =>
    if requested < 0 ∨ MAX_CONFIGURED_KIB < requested then .error (.cpuMaxDifficulty requested)
    else .ok requested.toNat

def difficultyQuiesceOf (cli : Cli) : Except ResolveError (Int × List String) :=
  match cli.difficultyQuiesceMs with
  | none => .ok (DEFAULT_DIFFICULTY_QUIESCE_MS, [])
  | some requested =>
    if requested < 0 ∨ QUIESCE_MAX_MS < requested then .error (.difficultyQuiesce requested)
    else .ok (requested, [if requested = 0 then
        "Difficulty quiesce: disabled (finds submit across difficulty transitions)"
      else s!"Difficulty quiesce: {requested} ms after a difficulty change"])

def parallelism (cli : Cli) (options : ResolveOptions) : Except ResolveError Parallelism := do
  let (gpuStreamsPerDevice, gpuMessages) ← gpuStreamsOf cli
  let (cpuWorkerCount, cpuMessages) ← cpuWorkersOf cli options
  let cpuMaxDifficulty ← cpuMaxDifficultyOf cli
  let (difficultyQuiesceMs, quiesceMessages) ← difficultyQuiesceOf cli
  .ok { gpuStreamsPerDevice, cpuWorkerCount, cpuMaxDifficulty, difficultyQuiesceMs
        messages := gpuMessages ++ cpuMessages ++ quiesceMessages }

/-! ## Identity -/

structure Identity where
  minerAddress : String
  ecoDevfeeAddress : String
  devfeePermillage : Int

section

variable (keccak256 : List UInt8 → Vector UInt8 32)

/-- The identity of the file, or the null identity of the test mode; with the file as it is
left. -/
def loadIdentity (cli : Cli) (options : ResolveOptions) (prompter : Prompter)
    (file : Option String) :
    Except (Failure ResolveError) (AppConfig × Identity × Option String) :=
  match cli.testFixedDiff with
  | some _ => .ok (.new, ⟨NULL_ADDRESS, NULL_ADDRESS, 0⟩, file)
  | none =>
    if cli.minerAddr.isNone ∨ cli.totalDevFee.isNone then
      match AppConfig.load keccak256 options.writeError prompter file with
      | .error .panic => .error .panic
      | .error (.error e) => .error (.error (.config e.text))
      | .ok (self, _, file) =>
        .ok (self, ⟨self.accountAddress, self.ecoDevAddr, self.devfeePermillage⟩, file)
    else
      match AppConfig.tryLoad file with
      | none => .error .panic
      | some self =>
        .ok (self, ⟨self.accountAddress, self.ecoDevAddr, self.devfeePermillage⟩, file)

def devfeeFlag (cli : Cli) (stored : Int) : Except ResolveError (Int × List String) :=
  match cli.totalDevFee with
  | none => .ok (stored, [])
  | some totalDevFee =>
    if 0 ≤ totalDevFee ∧ totalDevFee ≤ 1000 then
      .ok (totalDevFee, [s!"Total developer fee set to: {totalDevFee}"])
    else .error (.totalDevFee totalDevFee)

def ecoDevFlag (cli : Cli) (stored : String) : Except ResolveError (String × List String) :=
  match cli.ecoDevAddr with
  | none => .ok (stored, [])
  | some address =>
    if isValidEthereumAddress keccak256 address then
      .ok (address, [s!"Ecosystem developer fee address: {address}"])
    else .error (.ecoDevAddr address)

def minerFlag (cli : Cli) (stored : String) : Except ResolveError (String × List String) :=
  match cli.minerAddr with
  | none => .ok (stored, [])
  | some address =>
    if isValidEthereumAddress keccak256 address then .ok (address, [s!"Miner address: {address}"])
    else .error (.minerAddr address)

/-- Whatever it came from, an identity has to be valid. -/
def checkIdentity (identity : Identity) : Except ResolveError Unit :=
  if !identity.ecoDevfeeAddress.isEmpty &&
      !isValidEthereumAddress keccak256 identity.ecoDevfeeAddress then
    .error (.ecoDevAddr identity.ecoDevfeeAddress)
  else if !isValidEthereumAddress keccak256 identity.minerAddress then
    .error (.minerAddr identity.minerAddress)
  else if !isValidDevfee identity.devfeePermillage then
    .error (.totalDevFee identity.devfeePermillage)
  else .ok ()

/-- The flags of the identity over what is stored. -/
def settleIdentity (cli : Cli) (stored : Identity) :
    Except ResolveError (Identity × List String) := do
  let (devfeePermillage, devfeeMessages) ← devfeeFlag cli stored.devfeePermillage
  let (ecoDevfeeAddress, ecoMessages) ← ecoDevFlag keccak256 cli stored.ecoDevfeeAddress
  let (minerAddress, minerMessages) ← minerFlag keccak256 cli stored.minerAddress
  let identity : Identity := ⟨minerAddress, ecoDevfeeAddress, devfeePermillage⟩
  checkIdentity keccak256 identity
  .ok (identity, devfeeMessages ++ ecoMessages ++ minerMessages)

end

/-- `--saveConfig` -/
def saveIdentity (cli : Cli) (options : ResolveOptions) (appConfig : AppConfig)
    (identity : Identity) (file : Option String) :
    Except ResolveError (Option String × List String) :=
  if cli.saveConfig then
    let appConfig := { appConfig with accountAddress := identity.minerAddress }
    let appConfig := if identity.ecoDevfeeAddress.isEmpty then appConfig
      else { appConfig with ecoDevAddr := identity.ecoDevfeeAddress }
    let appConfig := { appConfig with devfeePermillage := identity.devfeePermillage }
    match appConfig.save options.writeError with
    | .error e => .error (.config e.text)
    | .ok file => .ok (file, ["Configuration file updated with console inputs."])
  else .ok (file, [])

/-! ## The settled configuration -/

structure ResolvedConfig where
  execute : Bool
  donotupload : Bool
  saveConfig : Bool
  minerAddress : String
  ecoDevfeeAddress : String
  devfeePermillage : Int
  deviceList : String
  gpuStreamsPerDevice : Nat
  cpuWorkerCount : Nat
  cpuMaxDifficulty : Nat
  difficultyQuiesceMs : Int
  maxBatchSize : Nat
  displayMode : DisplayMode
  displayWarning : Option String
  dashboardBind : String
  dashboardPort : Nat
  rpcLink : String
  customName : String
  platformMode : Bool
  mqttBroker : String
  workerId : String
  journalPath : String
  difficultyCachePath : String
  margin : MarginConfig
  difficultyMargin : Nat
  testFixedDiff : Option Nat
  testBlockPattern : Option String
  initialDifficulty : Nat
  difficultySeedNote : Option String
  startupMessages : List String

/-- `seed_initial_difficulty`: a plausible cache, or the fallback. -/
def seedInitialDifficulty (cache : Option String) : Nat × Option String :=
  match cache.bind stoi with
  | some cached =>
    if 1 ≤ cached ∧ cached ≤ 100000000 then
      (cached.toNat, some s!"seeded from cache | current={cached.toNat}")
    else (FALLBACK_DIFFICULTY, none)
  | none => (FALLBACK_DIFFICULTY, none)

/-- What is settled before the identity is looked at. -/
structure Front where
  display : DisplayMode × Option String
  settings : Settings
  parallelism : Parallelism

def front (isIpAddr : String → Bool) (cli : Cli) (options : ResolveOptions) (prompter : Prompter)
    (file : Option String) : Except (Failure ResolveError) (Front × Prompter) := do
  let port ← orError (portFlag cli)
  let (displayMode, displayWarning, prompter) ← orError (askDisplay cli options prompter)
  let config ← orPanic (ConfigManager.new.load file)
  let settings ← orError (settings isIpAddr cli config port)
  let parallelism ← orError (parallelism cli options)
  .ok (⟨(displayMode, displayWarning), settings, parallelism⟩, prompter)

/-- What is settled once the file is written. -/
def finish (cli : Cli) (options : ResolveOptions) (front : Front) (identity : Identity)
    (messages : List String) : Except ResolveError ResolvedConfig :=
  let rpcLink := cli.rpcLink.getD DEFAULT_RPC_LINK
  let mqttBroker := cli.mqttBroker.getD ""
  if cli.platformMode && mqttBroker.isEmpty then .error .platformModeWithoutBroker
  else
    let testFixedDiff := cli.testFixedDiff.map Int.toNat
    let maxBatchSize := (cli.batchSize.map Int.toNat).getD 0
    let ecoNote := if identity.devfeePermillage ≠ 0 ∧ !identity.ecoDevfeeAddress.isEmpty then
      s!" Ecosystem devfee address: {identity.ecoDevfeeAddress}" else ""
    let seed := match testFixedDiff with
      | some fixed => (fixed, none)
      | none => seedInitialDifficulty options.difficultyCache
    .ok {
      execute := cli.execute
      donotupload := cli.donotupload
      saveConfig := cli.saveConfig
      minerAddress := identity.minerAddress
      ecoDevfeeAddress := identity.ecoDevfeeAddress
      devfeePermillage := identity.devfeePermillage
      deviceList := cli.device.getD ""
      gpuStreamsPerDevice := front.parallelism.gpuStreamsPerDevice
      cpuWorkerCount := front.parallelism.cpuWorkerCount
      cpuMaxDifficulty := front.parallelism.cpuMaxDifficulty
      difficultyQuiesceMs := front.parallelism.difficultyQuiesceMs
      maxBatchSize
      displayMode := front.display.1
      displayWarning := front.display.2
      dashboardBind := front.settings.dashboardBind
      dashboardPort := front.settings.dashboardPort
      rpcLink
      customName := cli.customName.getD ""
      platformMode := cli.platformMode
      mqttBroker
      workerId := cli.workerId.getD ""
      journalPath := front.settings.journalPath
      difficultyCachePath := options.difficultyCachePath
      margin := front.settings.margin
      difficultyMargin := front.settings.difficultyMargin
      testFixedDiff
      testBlockPattern := cli.testBlockPattern
      initialDifficulty := seed.1
      difficultySeedNote := seed.2
      startupMessages :=
        (cli.testBlockPattern.elim [] fun pattern =>
          [s!"Test block pattern override: {pattern}"]) ++
        (cli.batchSize.elim [] fun _ => [s!"Max batch size override: {maxBatchSize}"]) ++
        front.settings.message ++ front.parallelism.messages ++ messages ++
        [s!"RPC Link: {rpcLink}", s!"Logged in as {identity.minerAddress}. Devfee set at " ++
          s!"{identity.devfeePermillage}/1000.{ecoNote}"] }

/-- `resolve`, with the file it leaves: two parts of it rewrite the file, each from a map of
its own. -/
def resolve (keccak256 : List UInt8 → Vector UInt8 32) (isIpAddr : String → Bool) (cli : Cli)
    (options : ResolveOptions) (prompter : Prompter) (file : Option String) :
    Except (Failure ResolveError) ResolvedConfig × Option String :=
  match front isIpAddr cli options prompter file with
  | .error e => (.error e, file)
  | .ok (front, prompter) =>
    match loadIdentity keccak256 cli options prompter file with
    | .error e => (.error e, file)
    | .ok (appConfig, stored, file) =>
      match settleIdentity keccak256 cli stored with
      | .error e => (.error (.error e), file)
      | .ok (identity, messages) =>
        match saveIdentity cli options appConfig identity file with
        | .error e => (.error (.error e), file)
        | .ok (file, saved) =>
          (orError (finish cli options front identity (messages ++ saved)), file)

end Config

end TreeMiner
