import TreeMiner.Config.Manager
import TreeMiner.Core.Address

/-! The identity in `config.txt`: read and repaired with the operator's answers, taken as it
is, or written back with the inputs of the command line. -/

namespace TreeMiner.Config

open Lib

/-- What the console gives to one prompt: a line, the end of the input, or an error. -/
abbrev Answer := Except String (Option String)

/-- The answers to come; behind them the input has ended. -/
abbrev Prompter := List Answer

def promptLine : Prompter → Answer × Prompter
  | [] => (.ok none, [])
  | answer :: rest => (answer, rest)

inductive AppConfigError
  | io (error : String)
  | noInput (what : String)
deriving DecidableEq, Repr

/-- How a function ends early. -/
inductive Failure (ε : Type)
  | error (e : ε)
  | panic
deriving DecidableEq, Repr

def orError {ε α : Type} : Except ε α → Except (Failure ε) α := Except.mapError .error

def orPanic {ε α : Type} : Option α → Except (Failure ε) α
  | some a => .ok a
  | none => .error .panic

/-- The `#[error]` texts. -/
def AppConfigError.text : AppConfigError → String
  | .io error => error
  | .noInput what => "no operator input available for: " ++ what

/-- `answer.trim()` -/
def trimText (text : String) : String := String.ofList (trimBy isWhitespace text.toList)

def isValidDevfee (devfee : Int) : Bool := decide (0 ≤ devfee) && decide (devfee ≤ 1000)

structure AppConfig where
  accountAddress : String
  ecoDevAddr : String
  devfeePermillage : Int
deriving DecidableEq, Repr

def AppConfig.new : AppConfig := ⟨"", "", 0⟩

/-- The keys `AppConfig` owns. -/
def IDENTITY_KEYS : List String := ["account_address", "ecodev_address", "devfee_permillage"]

/-- `fs::write` of the file, or the error the system answers with. -/
def writeFile (writeError : Option String) (config : ConfigManager) :
    Except AppConfigError (Option String) :=
  match writeError with
  | some error => .error (.io error)
  | none => .ok (some config.text)

section

variable (keccak256 : List UInt8 → Vector UInt8 32)

/-- Asks until an address is valid, or there is no answer. -/
def promptForEip55Address : Prompter → Except AppConfigError (String × Prompter)
  | [] => .error (.noInput "EIP-55 account address")
  | .error error :: _ => .error (.io error)
  | .ok none :: _ => .error (.noInput "EIP-55 account address")
  | .ok (some answer) :: rest =>
    if isValidEthereumAddress keccak256 (trimText answer) then .ok (trimText answer, rest)
    else promptForEip55Address rest

def promptForDevfeePermillage : Prompter → Except AppConfigError (Int × Prompter)
  | [] => .error (.noInput "devfee per thousand")
  | .error error :: _ => .error (.io error)
  | .ok none :: _ => .error (.noInput "devfee per thousand")
  | .ok (some answer) :: rest =>
    match (stoi answer).filter isValidDevfee with
    | some value => .ok (value, rest)
    | none => promptForDevfeePermillage rest

def repairAddress (prompter : Prompter) (stored : String) :
    Except AppConfigError (String × Prompter) :=
  if isValidEthereumAddress keccak256 stored then .ok (stored, prompter)
  else promptForEip55Address keccak256 prompter

def repairDevfee (prompter : Prompter) (stored : String) :
    Except AppConfigError (Int × Prompter) :=
  match (stoi stored).filter isValidDevfee with
  | some value => .ok (value, prompter)
  | none => promptForDevfeePermillage prompter

/-- The identity of a file, with what is invalid asked for. -/
def repair (prompter : Prompter) (config : ConfigManager) :
    Except AppConfigError (AppConfig × Prompter) := do
  let (account, prompter) ← repairAddress keccak256 prompter (config.get "account_address")
  let eco := config.get "ecodev_address"
  let eco := if !eco.isEmpty && !isValidEthereumAddress keccak256 eco then "" else eco
  let (devfee, prompter) ← repairDevfee prompter (config.get "devfee_permillage")
  .ok (⟨account, eco, devfee⟩, prompter)

/-- The first run. -/
def setUp (prompter : Prompter) : Except AppConfigError (AppConfig × Prompter) := do
  let (account, prompter) ← promptForEip55Address keccak256 prompter
  let (devfee, prompter) ← promptForDevfeePermillage prompter
  .ok (⟨account, "", devfee⟩, prompter)

def identify (prompter : Prompter) (file : Option String) (config : ConfigManager) :
    Except AppConfigError (AppConfig × Prompter) :=
  if file.isSome then repair keccak256 prompter config else setUp keccak256 prompter

/-- `AppConfig::load`: the address and the fee are always written back. -/
def AppConfig.load (writeError : Option String) (prompter : Prompter) (file : Option String) :
    Except (Failure AppConfigError) (AppConfig × Prompter × Option String) := do
  let config ← orPanic (ConfigManager.new.load file)
  let (self, prompter) ← orError (identify keccak256 prompter file config)
  let config := (config.set "account_address" self.accountAddress).set "devfee_permillage"
    (toString self.devfeePermillage)
  let file ← orError (writeFile writeError config)
  .ok (self, prompter, file)

end

/-- `value.clamp(i32::MIN, i32::MAX)` -/
def clampI32 (value : Int) : Int := max (-2147483648) (min 2147483647 value)

/-- `AppConfig::try_load`: whatever is there, nothing validated; `none` is a panic. -/
def AppConfig.tryLoad (file : Option String) : Option AppConfig :=
  if file.isSome then
    (ConfigManager.new.load file).map fun config =>
      { accountAddress := config.get "account_address"
        ecoDevAddr := config.get "ecodev_address"
        devfeePermillage := match stoi (config.get "devfee_permillage") with
          | some value => clampI32 value
          | none => 0 }
  else some .new

/-- `AppConfig::save`: the map that is written was never loaded. -/
def AppConfig.save (self : AppConfig) (writeError : Option String) :
    Except AppConfigError (Option String) :=
  writeFile writeError (((ConfigManager.new.set "account_address" self.accountAddress).set
    "ecodev_address" self.ecoDevAddr).set "devfee_permillage" (toString self.devfeePermillage))

/-! ## Identities are plain -/

theorem bind_ok {ε α β : Type} {x : Except ε α} {f : α → Except ε β} {r : β}
    (h : x >>= f = .ok r) : ∃ a, x = .ok a ∧ f a = .ok r := by
  cases x with
  | error e => cases h
  | ok a => exact ⟨a, rfl, h⟩

theorem orError_ok {ε α : Type} {x : Except ε α} {a : α} (h : orError x = .ok a) : x = .ok a := by
  cases x with
  | error e => cases h
  | ok a' => exact congrArg Except.ok (Except.ok.inj h)

theorem orPanic_ok {ε α : Type} {x : Option α} {a : α}
    (h : (orPanic x : Except (Failure ε) α) = .ok a) : x = some a := by
  cases x with
  | none => cases h
  | some a' => exact congrArg some (Except.ok.inj h)

/-- What is loaded, unless the trimmer panics, is what the file says. -/
theorem load_read {file : Option String} {config : ConfigManager}
    (h : ConfigManager.new.load file = some config) : config = read file := by
  rw [ConfigManager.load_eq] at h
  split_ifs at h
  exact (Option.some.inj h).symm

/-- A text of characters that are no blanks and end no line. -/
theorem plain_of_chars {key value : String}
    (hkey : ∀ c ∈ key.toList, c ≠ '=' ∧ c ≠ '\n' ∧ c ≠ ' ' ∧ c ≠ '\t')
    (hvalue : ∀ c ∈ value.toList, c ≠ '\n' ∧ c ≠ ' ' ∧ c ≠ '\t') : Plain key value := by
  refine ⟨fun hmem => (hkey _ hmem).1 rfl, fun hmem => (hkey _ hmem).2.1 rfl,
    fun hmem => (hvalue _ hmem).1 rfl, trimBy_eq_self fun c hc => ?_,
    trimBy_eq_self fun c hc => ?_⟩
  · simp [isBlank, (hkey c hc).2.2]
  · simp [isBlank, (hvalue c hc).2]

theorem identity_key {key : String} (h : key ∈ IDENTITY_KEYS) :
    ∀ c ∈ key.toList, c ≠ '=' ∧ c ≠ '\n' ∧ c ≠ ' ' ∧ c ≠ '\t' := by
  have hkeys : ∀ key ∈ IDENTITY_KEYS, (key.toList.all fun c =>
      decide (c ≠ '=' ∧ c ≠ '\n' ∧ c ≠ ' ' ∧ c ≠ '\t')) = true := by decide
  exact fun c hc => of_decide_eq_true (List.all_eq_true.1 (hkeys key h) c hc)

variable {keccak256 : List UInt8 → Vector UInt8 32}

theorem address_chars {address : String} (h : isValidEthereumAddress keccak256 address = true) :
    ∀ c ∈ address.toList, isAsciiAlphanumeric c = true := by
  unfold isValidEthereumAddress toChecksumAddress at h
  split at h
  · rename_i checksummed hsome
    split at hsome
    · rename_i body haddress
      split_ifs at hsome with hbody
      intro c hc
      rw [haddress, List.mem_cons, List.mem_cons] at hc
      rcases hc with rfl | rfl | hc
      · decide
      · decide
      · exact isAsciiAlphanumeric_of_hexdigit (List.all_eq_true.1 hbody.2 c hc)
    · cases hsome
  · cases h

theorem toString_chars (n : Int) : ∀ c ∈ (toString n).toList, c = '-' ∨ isAsciiDigit c = true := by
  intro c hc
  cases n with
  | ofNat n =>
    have htext : (toString (Int.ofNat n)).toList = Nat.toDigits 10 n := Nat.toList_repr
    rw [htext] at hc
    exact Or.inr (isAsciiDigit_of_mem_toDigits hc)
  | negSucc n =>
    have htext : (toString (Int.negSucc n)).toList = '-' :: Nat.toDigits 10 (n + 1) := by
      rw [show toString (Int.negSucc n) = "-" ++ Nat.repr (n + 1) from rfl, String.toList_append,
        Nat.toList_repr]
      rfl
    rw [htext, List.mem_cons] at hc
    exact hc.imp_right isAsciiDigit_of_mem_toDigits

theorem plain_address {key address : String} (hkey : key ∈ IDENTITY_KEYS)
    (h : isValidEthereumAddress keccak256 address = true) : Plain key address := by
  refine plain_of_chars (identity_key hkey) fun c hc => ?_
  have hchar := address_chars h c hc
  refine ⟨?_, ?_, ?_⟩ <;> rintro rfl <;> exact absurd hchar (by decide)

theorem plain_integer {key : String} (hkey : key ∈ IDENTITY_KEYS) (n : Int) :
    Plain key (toString n) := by
  refine plain_of_chars (identity_key hkey) fun c hc => ?_
  have hchar := toString_chars n c hc
  refine ⟨?_, ?_, ?_⟩ <;> rintro rfl <;> exact absurd hchar (by decide)

theorem plain_empty {key : String} (hkey : key ∈ IDENTITY_KEYS) : Plain key "" :=
  plain_of_chars (identity_key hkey) fun _ hc => absurd hc List.not_mem_nil

/-! ## What is written -/

theorem promptForEip55Address_valid {prompter rest : Prompter} {address : String}
    (h : promptForEip55Address keccak256 prompter = .ok (address, rest)) :
    isValidEthereumAddress keccak256 address = true := by
  induction prompter with
  | nil => cases h
  | cons answer prompter ih =>
    match answer with
    | .error e => cases h
    | .ok none => cases h
    | .ok (some line) =>
      unfold promptForEip55Address at h
      split_ifs at h with hvalid
      · obtain ⟨rfl, -⟩ := Prod.mk.inj (Except.ok.inj h)
        exact hvalid
      · exact ih h

theorem repair_valid {prompter rest : Prompter} {config : ConfigManager} {self : AppConfig}
    (h : repair keccak256 prompter config = .ok (self, rest)) :
    isValidEthereumAddress keccak256 self.accountAddress = true := by
  unfold repair at h
  obtain ⟨⟨account, prompter'⟩, haccount, h⟩ := bind_ok h
  unfold repairAddress at haccount
  obtain ⟨devfee, -, h⟩ := bind_ok h
  obtain ⟨rfl, -⟩ := Prod.mk.inj (Except.ok.inj h)
  split_ifs at haccount with hstored
  · obtain ⟨rfl, -⟩ := Prod.mk.inj (Except.ok.inj haccount)
    exact hstored
  · exact promptForEip55Address_valid haccount

theorem setUp_valid {prompter rest : Prompter} {self : AppConfig}
    (h : setUp keccak256 prompter = .ok (self, rest)) :
    isValidEthereumAddress keccak256 self.accountAddress = true := by
  unfold setUp at h
  obtain ⟨⟨account, prompter'⟩, haccount, h⟩ := bind_ok h
  obtain ⟨devfee, -, h⟩ := bind_ok h
  obtain ⟨rfl, -⟩ := Prod.mk.inj (Except.ok.inj h)
  exact promptForEip55Address_valid haccount

theorem writeFile_ok {writeError : Option String} {config : ConfigManager} {file : Option String}
    (h : writeFile writeError config = .ok file) : file = some config.text := by
  cases writeError with
  | some error => cases h
  | none => exact (Except.ok.inj h).symm

/-- What `load` writes: the file as it was read, with another identity. -/
theorem load_ok {writeError : Option String} {prompter rest : Prompter} {file file' : Option String}
    {self : AppConfig}
    (h : AppConfig.load keccak256 writeError prompter file = .ok (self, rest, file')) :
    ∃ m : ConfigManager, file' = some m.text ∧ m.WellFormed ∧
      ∀ key ∉ IDENTITY_KEYS, m.values[key]? = (read file).values[key]? := by
  unfold AppConfig.load at h
  obtain ⟨config, hconfig, h⟩ := bind_ok h
  obtain rfl := load_read (orPanic_ok hconfig)
  obtain ⟨⟨self', prompter'⟩, hself, h⟩ := bind_ok h
  obtain ⟨written, hwrite, h⟩ := bind_ok h
  obtain ⟨rfl, hrest⟩ := Prod.mk.inj (Except.ok.inj h)
  obtain ⟨-, rfl⟩ := Prod.mk.inj hrest
  have hvalid : isValidEthereumAddress keccak256 self'.accountAddress = true := by
    have hself := orError_ok hself
    unfold identify at hself
    split_ifs at hself
    · exact repair_valid hself
    · exact setUp_valid hself
  refine ⟨_, writeFile_ok (orError_ok hwrite), ?_, fun key hkey => ?_⟩
  · exact ((ConfigManager.read_wellFormed file).set
      (plain_address (by decide) hvalid)).set (plain_integer (by decide) _)
  · have hne : "account_address" ≠ key ∧ "devfee_permillage" ≠ key := by
      constructor <;> rintro rfl <;> exact hkey (by decide)
    rw [ConfigManager.set_get, ConfigManager.set_get, if_neg hne.2, if_neg hne.1]

/-- What `save` writes: an identity, and nothing else. -/
theorem save_ok {self : AppConfig} {writeError : Option String} {file : Option String}
    (haccount : isValidEthereumAddress keccak256 self.accountAddress = true)
    (heco : self.ecoDevAddr = "" ∨ isValidEthereumAddress keccak256 self.ecoDevAddr = true)
    (h : self.save writeError = .ok file) :
    ∃ m : ConfigManager, file = some m.text ∧ m.WellFormed ∧
      ∀ key ∉ IDENTITY_KEYS, m.values[key]? = none := by
  refine ⟨_, writeFile_ok h, ?_, fun key hkey => ?_⟩
  · refine ((ConfigManager.new_wellFormed.set (plain_address (by decide) haccount)).set ?_).set
      (plain_integer (by decide) _)
    rcases heco with hempty | hvalid
    · rw [hempty]
      exact plain_empty (by decide)
    · exact plain_address (by decide) hvalid
  · have hne : "account_address" ≠ key ∧ "ecodev_address" ≠ key ∧ "devfee_permillage" ≠ key := by
      refine ⟨?_, ?_, ?_⟩ <;> rintro rfl <;> exact hkey (by decide)
    rw [ConfigManager.set_get, ConfigManager.set_get, ConfigManager.set_get, if_neg hne.2.2,
      if_neg hne.2.1, if_neg hne.1]
    exact Std.TreeMap.getElem?_emptyc

end TreeMiner.Config
