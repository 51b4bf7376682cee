import TreeMiner.Config.Resolve

/-! What rewriting `config.txt` does to the keys of the operator: which of them a `resolve`
leaves as they were, and what a later one makes of the file. -/

namespace TreeMiner.Config

open ConfigManager (WellFormed read_wellFormed read_text)

/-- Every key but those of the identity has the value it had. -/
def Kept (file file' : Option String) : Prop :=
  ∀ key ∉ IDENTITY_KEYS, ∀ value,
    (read file).values[key]? = some value → (read file').values[key]? = some value

/-- Flags that differ in the identity only. -/
def SameFlags (cli cli' : Cli) : Prop :=
  ∃ totalDevFee ecoDevAddr minerAddr, cli' = { cli with totalDevFee, ecoDevAddr, minerAddr }

/-- The journal path, the margin, and where the dashboard listens. -/
def ResolvedConfig.settings (r : ResolvedConfig) : Settings where
  margin := r.margin
  difficultyMargin := r.difficultyMargin
  journalPath := r.journalPath
  dashboardBind := r.dashboardBind
  dashboardPort := r.dashboardPort

section

variable (keccak256 : List UInt8 → Vector UInt8 32) (isIpAddr : String → Bool)

/-- A resolve that loses nothing of the file: the keys are kept, and a later resolve with the
same flags settles the same. -/
def Lossless (cli : Cli) (r : ResolvedConfig) (file file' : Option String) : Prop :=
  Kept file file' ∧ ∀ cli' options prompter r' file'', SameFlags cli cli' →
    resolve keccak256 isIpAddr cli' options prompter file' = (.ok r', file'') →
    r'.settings = r.settings

/-- The operator is asked for what is missing on the command line, but not in the test mode. -/
def Interactive (cli : Cli) : Prop :=
  cli.testFixedDiff = none ∧ (cli.minerAddr = none ∨ cli.totalDevFee = none)

instance (cli : Cli) : Decidable (Interactive cli) := inferInstanceAs (Decidable (_ ∧ _))

/-- `--saveConfig` finds no other key in the file, and a rewrite without it no value that ends
in `\r`. -/
def KeepsConfig (cli : Cli) (file : Option String) : Prop :=
  if cli.saveConfig then
    ∀ key value, (read file).values[key]? = some value → key ∈ IDENTITY_KEYS
  else if Interactive cli then
    ∀ key ∉ IDENTITY_KEYS, ∀ value, (read file).values[key]? = some value →
      value.toList.getLast? ≠ some '\r'
  else True

end

variable {keccak256 : List UInt8 → Vector UInt8 32} {isIpAddr : String → Bool} {cli cli' : Cli}
  {options : ResolveOptions} {prompter : Prompter} {file file' : Option String}
  {r : ResolvedConfig}

/-! ## The stages of a resolve -/

/-- A resolve that succeeds, stage by stage. -/
theorem resolve_ok (h : resolve keccak256 isIpAddr cli options prompter file = (.ok r, file')) :
    ∃ f rest appConfig stored loaded identity messages saved,
      front isIpAddr cli options prompter file = .ok (f, rest) ∧
      loadIdentity keccak256 cli options rest file = .ok (appConfig, stored, loaded) ∧
      settleIdentity keccak256 cli stored = .ok (identity, messages) ∧
      saveIdentity cli options appConfig identity loaded = .ok (file', saved) ∧
      finish cli options f identity (messages ++ saved) = .ok r := by
  unfold resolve at h
  cases hfront : front isIpAddr cli options prompter file with
  | error e =>
    rw [hfront] at h
    cases h
  | ok p =>
    obtain ⟨f, rest⟩ := p
    rw [hfront] at h
    dsimp only at h
    cases hload : loadIdentity keccak256 cli options rest file with
    | error e =>
      rw [hload] at h
      cases h
    | ok p =>
      obtain ⟨appConfig, stored, loaded⟩ := p
      rw [hload] at h
      dsimp only at h
      cases hsettle : settleIdentity keccak256 cli stored with
      | error e =>
        rw [hsettle] at h
        cases h
      | ok p =>
        obtain ⟨identity, messages⟩ := p
        rw [hsettle] at h
        dsimp only at h
        cases hsave : saveIdentity cli options appConfig identity loaded with
        | error e =>
          rw [hsave] at h
          cases h
        | ok p =>
          obtain ⟨written, saved⟩ := p
          rw [hsave] at h
          obtain ⟨hfinish, rfl⟩ := Prod.mk.inj h
          have hfinish := orError_ok hfinish
          exact ⟨f, rest, appConfig, stored, loaded, identity, messages, saved, rfl, hload, hsettle,
            hsave, hfinish⟩

/-- What a resolve settles with the file it found. -/
theorem resolve_settings
    (h : resolve keccak256 isIpAddr cli options prompter file = (.ok r, file')) :
    ∃ port, portFlag cli = .ok port ∧
      settings isIpAddr cli (read file) port = .ok r.settings := by
  obtain ⟨f, rest, appConfig, stored, loaded, identity, messages, saved, hfront, -, -, -,
    hfinish⟩ := resolve_ok h
  unfold front at hfront
  obtain ⟨port, hport, hfront⟩ := bind_ok hfront
  obtain ⟨⟨mode, warning, rest'⟩, -, hfront⟩ := bind_ok hfront
  obtain ⟨config, hconfig, hfront⟩ := bind_ok hfront
  obtain rfl := load_read (orPanic_ok hconfig)
  obtain ⟨s, hsettings, hfront⟩ := bind_ok hfront
  obtain ⟨p, -, hfront⟩ := bind_ok hfront
  obtain ⟨rfl, -⟩ := Prod.mk.inj (Except.ok.inj hfront)
  refine ⟨port, orError_ok hport, (orError_ok hsettings).trans (congrArg Except.ok ?_)⟩
  unfold finish at hfinish
  dsimp only at hfinish
  split_ifs at hfinish
  all_goals
    rw [← Except.ok.inj hfinish]
    rfl

theorem checkIdentity_ok {identity : Identity} (h : checkIdentity keccak256 identity = .ok ()) :
    isValidEthereumAddress keccak256 identity.minerAddress = true ∧
      (identity.ecoDevfeeAddress = "" ∨
        isValidEthereumAddress keccak256 identity.ecoDevfeeAddress = true) := by
  unfold checkIdentity at h
  split_ifs at h with heco hminer
  refine ⟨?_, ?_⟩
  · simpa using hminer
  · by_cases hempty : identity.ecoDevfeeAddress = ""
    · exact Or.inl hempty
    · refine Or.inr ?_
      simpa [hempty] using heco

theorem settleIdentity_ok {stored identity : Identity} {messages : List String}
    (h : settleIdentity keccak256 cli stored = .ok (identity, messages)) :
    checkIdentity keccak256 identity = .ok () ∧
      (identity.ecoDevfeeAddress = stored.ecoDevfeeAddress ∨
        isValidEthereumAddress keccak256 identity.ecoDevfeeAddress = true) := by
  unfold settleIdentity at h
  obtain ⟨⟨devfee, devfeeMessages⟩, -, h⟩ := bind_ok h
  obtain ⟨⟨eco, ecoMessages⟩, heco, h⟩ := bind_ok h
  obtain ⟨⟨miner, minerMessages⟩, -, h⟩ := bind_ok h
  obtain ⟨⟨⟩, hcheck, h⟩ := bind_ok h
  obtain ⟨rfl, -⟩ := Prod.mk.inj (Except.ok.inj h)
  refine ⟨hcheck, ?_⟩
  unfold ecoDevFlag at heco
  split at heco
  · exact Or.inl (Prod.mk.inj (Except.ok.inj heco)).1.symm
  · split_ifs at heco with hvalid
    obtain ⟨rfl, -⟩ := Prod.mk.inj (Except.ok.inj heco)
    exact Or.inr hvalid

theorem loadIdentity_ok {appConfig : AppConfig} {stored : Identity} {loaded : Option String}
    (h : loadIdentity keccak256 cli options prompter file = .ok (appConfig, stored, loaded)) :
    (stored.ecoDevfeeAddress = appConfig.ecoDevAddr ∨ stored.ecoDevfeeAddress = NULL_ADDRESS) ∧
      if Interactive cli then ∃ m : ConfigManager, loaded = some m.text ∧ m.WellFormed ∧
        ∀ key ∉ IDENTITY_KEYS, m.values[key]? = (read file).values[key]?
      else loaded = file := by
  unfold loadIdentity at h
  split at h
  · rename_i diff htest
    obtain ⟨rfl, hrest⟩ := Prod.mk.inj (Except.ok.inj h)
    obtain ⟨rfl, rfl⟩ := Prod.mk.inj hrest
    have hnot : ¬ Interactive cli := fun hin => by
      rw [hin.1] at htest
      cases htest
    rw [if_neg hnot]
    exact ⟨Or.inr rfl, rfl⟩
  · rename_i htest
    split_ifs at h with hask
    · have hin : Interactive cli := ⟨htest, by simpa using hask⟩
      split at h
      · cases h
      · cases h
      · rename_i self rest written hload
        obtain ⟨rfl, hrest⟩ := Prod.mk.inj (Except.ok.inj h)
        obtain ⟨rfl, rfl⟩ := Prod.mk.inj hrest
        rw [if_pos hin]
        exact ⟨Or.inl rfl, load_ok hload⟩
    · have hnot : ¬ Interactive cli := fun hin => hask (by simpa using hin.2)
      split at h
      · cases h
      · obtain ⟨rfl, hrest⟩ := Prod.mk.inj (Except.ok.inj h)
        obtain ⟨rfl, rfl⟩ := Prod.mk.inj hrest
        rw [if_neg hnot]
        exact ⟨Or.inl rfl, rfl⟩

theorem saveIdentity_ok {appConfig : AppConfig} {identity : Identity}
    {loaded : Option String} {saved : List String}
    (hminer : isValidEthereumAddress keccak256 identity.minerAddress = true)
    (hvalid : identity.ecoDevfeeAddress = "" ∨
      isValidEthereumAddress keccak256 identity.ecoDevfeeAddress = true)
    (heco : identity.ecoDevfeeAddress = "" → appConfig.ecoDevAddr = "")
    (h : saveIdentity cli options appConfig identity loaded = .ok (file', saved)) :
    if cli.saveConfig then ∃ m : ConfigManager, file' = some m.text ∧ m.WellFormed ∧
      ∀ key ∉ IDENTITY_KEYS, m.values[key]? = none
    else file' = loaded := by
  unfold saveIdentity at h
  by_cases hsave : cli.saveConfig = true
  · rw [if_pos hsave] at h ⊢
    dsimp only at h
    split at h
    · cases h
    · rename_i written hwrite
      obtain ⟨rfl, -⟩ := Prod.mk.inj (Except.ok.inj h)
      by_cases hempty : identity.ecoDevfeeAddress = ""
      · rw [hempty, if_pos (show "".isEmpty = true by decide)] at hwrite
        exact @save_ok keccak256
          ⟨identity.minerAddress, appConfig.ecoDevAddr, identity.devfeePermillage⟩ _ _ hminer
          (Or.inl (heco hempty)) hwrite
      · rw [if_neg (by simpa using hempty)] at hwrite
        exact @save_ok keccak256
          ⟨identity.minerAddress, identity.ecoDevfeeAddress, identity.devfeePermillage⟩ _ _ hminer
          (Or.inr (hvalid.resolve_left hempty)) hwrite
  · rw [if_neg hsave] at h ⊢
    exact (Prod.mk.inj (Except.ok.inj h)).1.symm

/-! ## What is left of the file -/

/-- The other keys of the file behind a resolve. -/
theorem read_resolved (h : resolve keccak256 isIpAddr cli options prompter file = (.ok r, file'))
    {key : String} (hkey : key ∉ IDENTITY_KEYS) : (read file').values[key]? =
      if cli.saveConfig then none
      else if Interactive cli then (read file).values[key]?.map reread
      else (read file).values[key]? := by
  obtain ⟨f, rest, appConfig, stored, loaded, identity, messages, saved, -, hload, hsettle, hsave,
    -⟩ := resolve_ok h
  obtain ⟨hstored, hloaded⟩ := loadIdentity_ok hload
  obtain ⟨hcheck, heco⟩ := settleIdentity_ok hsettle
  obtain ⟨hminer, hvalid⟩ := checkIdentity_ok hcheck
  have hnone : identity.ecoDevfeeAddress = "" → appConfig.ecoDevAddr = "" := by
    intro hempty
    rw [hempty] at heco
    have hstoredEmpty : "" = stored.ecoDevfeeAddress := heco.resolve_right (by
      change ¬ false = true
      decide)
    rcases hstored with hsame | hnull
    · rw [← hsame, ← hstoredEmpty]
    · rw [hnull] at hstoredEmpty
      exact absurd hstoredEmpty (by decide)
  have hsaved := saveIdentity_ok hminer hvalid hnone hsave
  split_ifs at hsaved hloaded ⊢
  · obtain ⟨m, rfl, hm, hvalues⟩ := hsaved
    rw [read_text hm, hvalues key hkey]
    rfl
  · obtain ⟨m, rfl, hm, hvalues⟩ := hsaved
    rw [read_text hm, hvalues key hkey]
    rfl
  · obtain ⟨m, rfl, hm, hvalues⟩ := hloaded
    rw [hsaved, read_text hm, hvalues key hkey]
  · rw [hsaved, hloaded]

/-- The keys are kept exactly if the rewrite that is made takes none of them. -/
theorem kept_iff (h : resolve keccak256 isIpAddr cli options prompter file = (.ok r, file')) :
    Kept file file' ↔ KeepsConfig cli file := by
  unfold Kept KeepsConfig
  split_ifs with hsave hin
  · constructor
    · intro hkept key value hvalue
      by_contra hkey
      have hread := read_resolved h hkey
      rw [if_pos hsave, hkept key hkey value hvalue] at hread
      cases hread
    · intro hkeys key hkey value hvalue
      exact absurd (hkeys key value hvalue) hkey
  · refine forall₂_congr fun key hkey => forall₂_congr fun value hvalue => ?_
    rw [read_resolved h hkey, if_neg hsave, if_pos hin, hvalue, Option.map_some, Option.some_inj]
    exact reread_eq_iff (read_wellFormed file key value hvalue)
  · refine iff_of_true (fun key hkey value hvalue => ?_) trivial
    rw [read_resolved h hkey, if_neg hsave, if_neg hin, hvalue]

/-- The keys that are read besides those of the identity. -/
def SETTING_KEYS : List String :=
  ["difficulty_margin_mode", "difficulty_margin", "difficulty_margin_max", "journal_path",
    "dashboard_bind", "dashboard_port"]

/-- What is settled with a file depends on those keys only. -/
theorem settings_congr {config config' : ConfigManager}
    (h : ∀ key ∈ SETTING_KEYS, config'.get key = config.get key) (port : Nat) :
    settings isIpAddr cli config' port = settings isIpAddr cli config port := by
  have hint : ∀ key ∈ SETTING_KEYS, ∀ flag default,
      readPositiveInt config' key flag default = readPositiveInt config key flag default := by
    intro key hkey flag default
    unfold readPositiveInt
    rw [h key hkey]
  have hmargin : readMargin cli config' = readMargin cli config := by
    unfold readMargin marginMode
    rw [h "difficulty_margin_mode" (by decide), hint "difficulty_margin" (by decide),
      hint "difficulty_margin_max" (by decide)]
  unfold settings journalPathOf dashboardBindOf dashboardPortOf
  rw [hmargin, h "journal_path" (by decide), h "dashboard_bind" (by decide),
    h "dashboard_port" (by decide)]

/-- Where the condition holds no key but those of the identity reads otherwise. -/
theorem get_resolved (h : resolve keccak256 isIpAddr cli options prompter file = (.ok r, file'))
    (hkeeps : KeepsConfig cli file) {key : String} (hkey : key ∉ IDENTITY_KEYS) :
    (read file').get key = (read file).get key := by
  unfold ConfigManager.get
  cases hvalue : (read file).values[key]? with
  | some value => rw [(kept_iff h).2 hkeeps key hkey value hvalue]
  | none =>
    rw [read_resolved h hkey, hvalue]
    split_ifs <;> rfl

/-- A resolve loses nothing of the file exactly under the condition. -/
theorem lossless_iff (h : resolve keccak256 isIpAddr cli options prompter file = (.ok r, file')) :
    Lossless keccak256 isIpAddr cli r file file' ↔ KeepsConfig cli file := by
  refine ⟨fun hlossless => (kept_iff h).1 hlossless.1, fun hkeeps => ⟨(kept_iff h).2 hkeeps, ?_⟩⟩
  rintro cli' options' prompter' r' file'' ⟨totalDevFee, ecoDevAddr, minerAddr, rfl⟩ hlater
  obtain ⟨port, hport, hsettings⟩ := resolve_settings h
  obtain ⟨port', hport', hsettings'⟩ := resolve_settings hlater
  have hsame : port' = port := Except.ok.inj (hport'.symm.trans hport)
  have hkeys : ∀ key ∈ SETTING_KEYS, (read file').get key = (read file).get key := by
    intro key hkey
    refine get_resolved h hkeeps fun hidentity => ?_
    revert key
    decide
  have hlater : settings isIpAddr cli (read file') port' = .ok r'.settings := hsettings'
  rw [settings_congr hkeys, hsame, hsettings] at hlater
  exact (Except.ok.inj hlater).symm

/-! ## Rewrites of one file -/

/-- A hash that gives every address lower-case letters. -/
def zeroKeccak (_ : List UInt8) : Vector UInt8 32 := Vector.replicate 32 0

def isAny (bind : String) : Bool := bind == "0.0.0.0"

def plainOptions : ResolveOptions := ⟨"difficulty.cache", none, ⟨false, false, false⟩, 0, none⟩

/-- The file of an operator who moved the journal. -/
def movedJournal : Option String :=
  some ("account_address=" ++ NULL_ADDRESS ++ "\njournal_path=/var/finds.db\n")

/-- The same, with one carriage return more than the end of a line takes. -/
def movedJournalCr : Option String :=
  some ("account_address=" ++ NULL_ADDRESS ++ "\njournal_path=/var/finds.db\r\r\n")

def savingCli : Cli :=
  { Cli.empty with minerAddr := some NULL_ADDRESS, totalDevFee := some 42, saveConfig := true }

def askedCli : Cli := { Cli.empty with minerAddr := some NULL_ADDRESS }

def journalPathIn (file : Option String) : Option String := (read file).values["journal_path"]?

/-- The journal that is opened. -/
def journalOf (x : Except (Failure ResolveError) ResolvedConfig × Option String) : Option String :=
  x.1.toOption.map ResolvedConfig.journalPath

theorem exists_resolved {x : Except (Failure ResolveError) ResolvedConfig × Option String}
    {journal : String} (h : journalOf x = some journal) :
    ∃ r, x = (.ok r, x.2) ∧ r.journalPath = journal := by
  obtain ⟨result, written⟩ := x
  cases result with
  | error e => cases h
  | ok r => exact ⟨r, rfl, Option.some.inj h⟩

/-- Asked for the fee, and nothing lost. -/
theorem lossless_iff_asked : ∃ r file',
    resolve zeroKeccak isAny askedCli plainOptions [.ok (some "7")] movedJournal = (.ok r, file') ∧
      KeepsConfig askedCli movedJournal ∧
      Lossless zeroKeccak isAny askedCli r movedJournal file' := by
  have hjournal : journalOf (resolve zeroKeccak isAny askedCli plainOptions [.ok (some "7")]
      movedJournal) = some "/var/finds.db" := by decide
  obtain ⟨r, hr, -⟩ := exists_resolved hjournal
  have hkeeps : KeepsConfig askedCli movedJournal := by
    change ∀ key ∉ IDENTITY_KEYS, ∀ value, (read movedJournal).values[key]? = some value →
      value.toList.getLast? ≠ some '\r'
    intro key _ value hvalue
    have hlines : ∀ entry ∈ (read movedJournal).values.toList,
        entry.2.toList.getLast? ≠ some '\r' := by decide
    exact hlines (key, value) (Std.TreeMap.mem_toList_iff_getElem?_eq_some.2 hvalue)
  exact ⟨r, _, hr, hkeeps, (lossless_iff hr).2 hkeeps⟩

/-- `--saveConfig` loses the journal path, and so the next start opens another journal; a
question loses the second carriage return. -/
theorem rewrite_loses_journalPath :
    (∃ r file', resolve zeroKeccak isAny savingCli plainOptions [] movedJournal = (.ok r, file') ∧
      r.journalPath = "/var/finds.db" ∧ journalPathIn file' = none ∧
      journalOf (resolve zeroKeccak isAny savingCli plainOptions [] file') =
        some DEFAULT_JOURNAL_PATH ∧
      ¬ Lossless zeroKeccak isAny savingCli r movedJournal file') ∧
    ∃ r file', resolve zeroKeccak isAny askedCli plainOptions [.ok (some "7")] movedJournalCr =
        (.ok r, file') ∧
      r.journalPath = "/var/finds.db\r" ∧ journalPathIn file' = some "/var/finds.db" ∧
      ¬ Lossless zeroKeccak isAny askedCli r movedJournalCr file' := by
  have hsaving : journalOf (resolve zeroKeccak isAny savingCli plainOptions [] movedJournal) =
      some "/var/finds.db" := by decide
  have hasked : journalOf (resolve zeroKeccak isAny askedCli plainOptions [.ok (some "7")]
      movedJournalCr) = some "/var/finds.db\r" := by decide
  obtain ⟨r, hr, hpath⟩ := exists_resolved hsaving
  obtain ⟨r', hr', hpath'⟩ := exists_resolved hasked
  have hlost : journalPathIn (resolve zeroKeccak isAny savingCli plainOptions [] movedJournal).2 =
      none := by decide
  have hcut : journalPathIn (resolve zeroKeccak isAny askedCli plainOptions [.ok (some "7")]
      movedJournalCr).2 = some "/var/finds.db" := by decide
  refine ⟨⟨r, _, hr, hpath, hlost, by decide, ?_⟩, ⟨r', _, hr', hpath', hcut, ?_⟩⟩
  · intro hlossless
    have hkept := hlossless.1 "journal_path" (by decide) "/var/finds.db" (by decide)
    exact absurd (hlost.symm.trans hkept) (by decide)
  · intro hlossless
    have hkept := hlossless.1 "journal_path" (by decide) "/var/finds.db\r" (by decide)
    exact absurd (hcut.symm.trans hkept) (by decide)

end TreeMiner.Config
