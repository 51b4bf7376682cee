import TreeMiner.Config.Manager

/-! What `config.txt` says: of every key the text behind the first `=` of its last line. The
loader finds it in every text whose keys and values end in ASCII characters, and what was saved
is loaded again under the same condition. -/

namespace TreeMiner.Config

open Lib

/-! ## Values -/

/-- The value of the last line for `key`, or nothing. -/
def lastValue (ls : List (List Char)) (key : String) : String :=
  (((ls.filterMap parseLine).filter fun entry => entry.1 = key).getLast?.map Prod.snd).getD ""

/-- The text split at line feeds, one carriage return dropped at the end of each piece. -/
def pieces (text : List Char) : List (List Char) := (text.splitOn '\n').map stripCr

/-- The text behind the last line feed. -/
def unended (text : List Char) : List Char := (text.splitOn '\n').getLast?.getD []

/-- An entry without a line feed behind it that ends in a carriage return. -/
def EndsInCr (text : List Char) : Prop :=
  '=' ∈ unended text ∧ (unended text).getLast? = some '\r'

theorem lastValue_append (ls : List (List Char)) (line : List Char) (key : String) :
    lastValue (ls ++ [line]) key =
      (parseLine line).elim (lastValue ls key) fun entry =>
        if entry.1 = key then entry.2 else lastValue ls key := by
  unfold lastValue
  cases hline : parseLine line with
  | none => simp [hline]
  | some entry =>
    by_cases hkey : entry.1 = key
    · simp [hline, hkey]
    · simp [hline, hkey]

/-- The map of a file has the last value of every key. -/
theorem get_foldl_withLine (ls : List (List Char)) (key : String) :
    (ls.foldl ConfigManager.withLine .new).get key = lastValue ls key := by
  induction ls using List.reverseRecOn with
  | nil =>
    unfold ConfigManager.get
    rw [List.foldl_nil, ConfigManager.new, Std.TreeMap.getElem?_emptyc]
    rfl
  | append_singleton ls line ih =>
    rw [List.foldl_append, List.foldl_cons, List.foldl_nil, lastValue_append,
      ConfigManager.withLine]
    cases parseLine line with
    | none => exact ih
    | some entry =>
      dsimp only [Option.elim_some]
      rw [← ih, ConfigManager.get, ConfigManager.set_get]
      split_ifs
      · rfl
      · rfl

theorem get_withFile (text key : String) :
    (ConfigManager.new.withFile (some text)).get key = lastValue (lines text.toList) key := by
  rw [← get_foldl_withLine, ConfigManager.foldl_withLine]
  rfl

/-- A load does not panic exactly on the texts the trimmer takes, and then finds every key. -/
theorem load_lines_iff (text : String) :
    (∃ config, ConfigManager.new.load (some text) = some config ∧
      ∀ key, config.get key = lastValue (lines text.toList) key) ↔
      ConfigManager.Loads (some text) := by
  constructor
  · rintro ⟨config, hload, -⟩
    rw [ConfigManager.load_eq] at hload
    split_ifs at hload with hloads
    exact hloads
  · intro hloads
    exact ⟨_, by rw [ConfigManager.load_eq, if_pos hloads], get_withFile text⟩

/-! ## The last piece -/

/-- In an entry that ends in a carriage return, the carriage return is the end of the value. -/
theorem parseLine_endsInCr {line : List Char} (heq : '=' ∈ line)
    (hcr : line.getLast? = some '\r') :
    ∃ key value value', parseLine line = some (key, value) ∧
      parseLine (stripCr line) = some (key, value') ∧ value ≠ value' := by
  obtain ⟨key, rest, rfl, hkey⟩ := List.eq_append_cons_of_mem heq
  rw [List.getLast?_append_of_ne_nil _ (List.cons_ne_nil _ _)] at hcr
  rcases List.eq_nil_or_concat rest with rfl | ⟨value, last, rfl⟩
  · cases hcr
  · rw [List.concat_eq_append] at hcr ⊢
    have hlast : last = '\r' := by
      rw [← List.cons_append, List.getLast?_concat] at hcr
      exact Option.some.inj hcr
    subst hlast
    have hstrip : stripCr (key ++ '=' :: (value ++ ['\r'])) = key ++ '=' :: value := by
      rw [stripCr_append (List.cons_ne_nil _ _), ← List.cons_append, stripCr,
        if_pos List.getLast?_concat, List.dropLast_concat]
    refine ⟨_, _, _, parseLine_line hkey, by rw [hstrip]; exact parseLine_line hkey, ?_⟩
    intro hsame
    have hlists := String.ofList_inj.1 hsame
    have hlength := trimBy_length_le isBlank value
    rw [trimmed, trimBy_concat (by decide)] at hlists
    have hle := (List.rdropWhile_prefix isBlank (value.dropWhile isBlank)).length_le
    have := congrArg List.length hlists
    rw [List.length_append, List.length_singleton, trimmed, trimBy] at this
    omega

/-- The lines and the pieces say the same but for a carriage return at the very end. -/
theorem lastValue_pieces_iff (text : List Char) :
    (∀ key, lastValue (lines text) key = lastValue (pieces text) key) ↔ ¬ EndsInCr text := by
  obtain ⟨ended, last, hsplit, hlines⟩ := lines_splitOn text
  have hunended : unended text = last := by
    rw [unended, hsplit, List.getLast?_concat]
    rfl
  have hpieces : pieces text = ended.map stripCr ++ [stripCr last] := by
    rw [pieces, hsplit, List.map_append]
    rfl
  have hvalue : ∀ key, lastValue (lines text) key =
      lastValue (ended.map stripCr ++ [last]) key := by
    intro key
    rw [hlines]
    cases last with
    | nil =>
      rw [lastValue_append]
      simp [parseLine]
    | cons c last => rfl
  unfold EndsInCr
  rw [hunended]
  constructor
  · rintro hsame ⟨heq, hcr⟩
    obtain ⟨key, value, value', hline, hstripped, hne⟩ := parseLine_endsInCr heq hcr
    have := hsame key
    rw [hvalue, hpieces, lastValue_append, lastValue_append, hline, hstripped] at this
    simp only [Option.elim_some, if_true] at this
    exact hne this
  · intro hends key
    rw [hvalue, hpieces]
    by_cases hcr : last.getLast? = some '\r'
    · have heq : '=' ∉ last := fun heq => hends ⟨heq, hcr⟩
      have hnone : ∀ {line : List Char}, '=' ∉ line → parseLine line = none := by
        intro line hline
        have hdrop : line.dropWhile (· ≠ '=') = [] :=
          List.dropWhile_eq_nil_iff.2 fun c hc => decide_eq_true fun h => hline (h ▸ hc)
        rw [parseLine, hdrop]
      rw [lastValue_append, lastValue_append, hnone heq, hnone fun h => heq (mem_stripCr h)]
    · rw [stripCr_eq_self hcr]

/-! ## Saved maps -/

/-- A text that neither begins nor ends with a space or a tab. -/
def NoBlankEnds (text : List Char) : Prop :=
  (∀ c ∈ text.head?, isBlank c = false) ∧ ∀ c ∈ text.getLast?, isBlank c = false

instance (text : List Char) : Decidable (NoBlankEnds text) :=
  @instDecidableAnd _ _ (Option.decidableForallMem text.head?)
    (Option.decidableForallMem text.getLast?)

/-- An entry that a line can hold. -/
structure SavableEntry (key value : String) : Prop where
  noEquals : '=' ∉ key.toList
  keyLine : '\n' ∉ key.toList
  valueLine : '\n' ∉ value.toList
  valueCr : value.toList.getLast? ≠ some '\r'
  keyEnds : NoBlankEnds key.toList
  valueEnds : NoBlankEnds value.toList

theorem SavableEntry.plain {key value : String} (h : SavableEntry key value) : Plain key value :=
  ⟨h.noEquals, h.keyLine, h.valueLine, trimBy_eq_self_iff.2 h.keyEnds,
    trimBy_eq_self_iff.2 h.valueEnds⟩

namespace ConfigManager

def Savable (m : ConfigManager) : Prop :=
  ∀ key value : String, m.values[key]? = some value → SavableEntry key value

/-- Every key and every value is empty or ends in an ASCII character. -/
def EntriesEndAscii (m : ConfigManager) : Prop :=
  ∀ key value : String, m.values[key]? = some value → EndsAscii key.toList ∧ EndsAscii value.toList

variable {m : ConfigManager}

theorem Savable.wellFormed (h : m.Savable) : m.WellFormed := fun key value hvalue =>
  (h key value hvalue).plain

theorem halves_line {key value : List Char} (h : '=' ∉ key) :
    halves (key ++ '=' :: value) = some (key, value) := by
  have hall : ∀ c ∈ key, decide (c ≠ '=') = true := fun c hc =>
    decide_eq_true fun heq => h (heq ▸ hc)
  unfold halves
  rw [List.dropWhile_append_of_pos hall, List.takeWhile_append_of_pos hall]
  simp

/-- A written line, as it is read: the trimmer takes it if both sides end in ASCII. -/
theorem lineEndsAscii_written {key value : String} (h : SavableEntry key value) :
    LineEndsAscii (stripCr (line (key, value))) ↔
      EndsAscii key.toList ∧ EndsAscii value.toList := by
  have hcr : (line (key, value)).getLast? ≠ some '\r' := by
    unfold line
    rw [List.getLast?_append_of_ne_nil _ (List.cons_ne_nil _ _)]
    by_cases hnil : value.toList = []
    · rw [hnil]
      decide
    · rw [← List.singleton_append, List.getLast?_append_of_ne_nil _ hnil]
      exact h.valueCr
  rw [stripCr_eq_self hcr, LineEndsAscii, line, halves_line h.noEquals]
  simp only [Option.mem_some_iff, forall_eq', h.plain.keyTrim, h.plain.valueTrim]

theorem loads_text_iff (h : m.Savable) : Loads (some m.text) ↔ m.EntriesEndAscii := by
  have hmem : ∀ entry : String × String, entry ∈ m.values.toList ↔
      m.values[entry.1]? = some entry.2 := fun _ => Std.TreeMap.mem_toList_iff_getElem?_eq_some
  have hlines : ∀ l ∈ m.values.toList.map line, '\n' ∉ l := by
    intro l hl
    obtain ⟨entry, hentry, rfl⟩ := List.mem_map.1 hl
    have := h entry.1 entry.2 ((hmem entry).1 hentry)
    rw [line, List.mem_append, List.mem_cons, not_or, not_or]
    exact ⟨this.keyLine, by decide, this.valueLine⟩
  have htext : lines m.text.toList = (m.values.toList.map line).map stripCr := by
    rw [text, String.toList_ofList, lines_written hlines]
  unfold Loads EntriesEndAscii
  simp only [Option.mem_some_iff, forall_eq', htext, List.forall_mem_map]
  constructor
  · intro hloads key value hvalue
    exact (lineEndsAscii_written (h key value hvalue)).1
      (hloads (key, value) ((hmem (key, value)).2 hvalue))
  · rintro hends entry hentry
    have hvalue := (hmem entry).1 hentry
    exact (lineEndsAscii_written (h _ _ hvalue)).2 (hends _ _ hvalue)

/-- What was saved is loaded again exactly if the load does not panic. -/
theorem load_text_iff (h : m.Savable) :
    (∃ config, new.load (some m.text) = some config ∧
      ∀ key : String, config.values[key]? = m.values[key]?) ↔ m.EntriesEndAscii := by
  rw [← loads_text_iff h]
  constructor
  · rintro ⟨config, hload, -⟩
    rw [load_eq] at hload
    split_ifs at hload with hloads
    exact hloads
  · intro hloads
    refine ⟨_, by rw [load_eq, if_pos hloads], fun key => ?_⟩
    refine (read_text h.wellFormed key).trans ?_
    cases hvalue : m.values[key]? with
    | none => rfl
    | some value =>
      exact congrArg some ((reread_eq_iff (h.wellFormed key value hvalue)).2
        (h key value hvalue).valueCr)

end ConfigManager

/-! ## The law -/

/-- A text is read as its lines say exactly if no trimmed key or value ends in a character that
is not ASCII, and as its pieces say exactly if besides no entry ends the text in a carriage
return; a saved map is loaded again exactly if no key or value ends in such a character. -/
theorem configText_iff (text : String) {m : ConfigManager} (hm : m.Savable) :
    ((∃ config, ConfigManager.new.load (some text) = some config ∧
        ∀ key, config.get key = lastValue (lines text.toList) key) ↔
      ConfigManager.Loads (some text)) ∧
    ((∃ config, ConfigManager.new.load (some text) = some config ∧
        ∀ key, config.get key = lastValue (pieces text.toList) key) ↔
      ConfigManager.Loads (some text) ∧ ¬ EndsInCr text.toList) ∧
    ((∃ config, ConfigManager.new.load (some m.text) = some config ∧
        ∀ key : String, config.values[key]? = m.values[key]?) ↔ m.EntriesEndAscii) := by
  have hlines := load_lines_iff text
  refine ⟨hlines, ?_, ConfigManager.load_text_iff hm⟩
  constructor
  · rintro ⟨config, hload, hpieces⟩
    obtain ⟨config', hload', hget⟩ := hlines.2 (by
      rw [ConfigManager.load_eq] at hload
      split_ifs at hload with hloads
      exact hloads)
    obtain rfl : config' = config := Option.some.inj (hload'.symm.trans hload)
    exact ⟨hlines.1 ⟨config', hload', hget⟩, (lastValue_pieces_iff _).1 fun key =>
      (hget key).symm.trans (hpieces key)⟩
  · rintro ⟨hloads, hends⟩
    obtain ⟨config, hload, hget⟩ := hlines.2 hloads
    exact ⟨config, hload, fun key => (hget key).trans ((lastValue_pieces_iff _).2 hends key)⟩

/-- A file with the path of the journal. -/
def journalConfig (path : String) : ConfigManager := ConfigManager.new.set "journal_path" path

theorem entry_of_set {key value key' value' : String}
    (h : (ConfigManager.new.set key value).values[key']? = some value') :
    key = key' ∧ value = value' := by
  rw [ConfigManager.set_get, ConfigManager.new, Std.TreeMap.getElem?_emptyc] at h
  split_ifs at h with heq
  exact ⟨heq, Option.some.inj h⟩

theorem journalConfig_savable {path : String} (h : SavableEntry "journal_path" path) :
    (journalConfig path).Savable := by
  intro key value hvalue
  obtain ⟨rfl, rfl⟩ := entry_of_set hvalue
  exact h

theorem configText_iff_journal :
    ConfigManager.Loads (some "journal_path = finds.db\n") ∧
    ∃ config, ConfigManager.new.load (some (journalConfig "finds.db").text) = some config ∧
      ∀ key : String, config.values[key]? = (journalConfig "finds.db").values[key]? := by
  have hsavable : (journalConfig "finds.db").Savable :=
    journalConfig_savable ⟨by decide, by decide, by decide, by decide, by decide, by decide⟩
  have hlaw := configText_iff "journal_path = finds.db\n" hsavable
  refine ⟨by decide, hlaw.2.2.2 fun key value hvalue => ?_⟩
  obtain ⟨rfl, rfl⟩ := entry_of_set hvalue
  decide

/-- A path that ends in an accented letter stops the load, written by hand or saved. -/
theorem load_panics :
    ConfigManager.new.load (some "journal_path=caf\u00e9\n") = none ∧
    (journalConfig "caf\u00e9").Savable ∧
    ConfigManager.new.load (some (journalConfig "caf\u00e9").text) = none := by
  refine ⟨by decide, journalConfig_savable ⟨by decide, by decide, by decide, by decide, by decide,
    by decide⟩, by decide⟩

end TreeMiner.Config
