import Std.Data.TreeMap.Lemmas
import TreeMiner.Core.Prim
import TreeMiner.Lib.CharBoundary
import TreeMiner.Lib.Lines

/-! `config.txt`: `key=value`, one a line, split on the first `=`; read into a map, and
rewritten from it. What is read back are the values, but for a `\r` at the end of one. The
slice of the trimmer ends in the middle of a last character that is not ASCII, and panics. -/

namespace TreeMiner.Config

open Lib
open String (utf8Len)

def isBlank (c : Char) : Bool := c == ' ' || c == '\t'

/-- Spaces and tabs only: a `\r` is not trimmed. -/
def trimmed (text : List Char) : List Char := trimBy isBlank text

/-- `trim`, with its byte positions: the slice goes to one byte behind the start of the last
character. `none` is a panic. -/
def trim (text : List Char) : Option (List Char) :=
  match findBy (fun c => !isBlank c) text with
  | none => some []
  | some b => slice text b ((rfindBy (fun c => !isBlank c) text).getD b + 1)

/-- `std::stoi`: leading whitespace, a sign, and as many digits as there are. -/
def stoi (text : String) : Option Int :=
  -- the source looks at bytes, so only the whitespace of ASCII counts
  match text.toList.dropWhile fun c => c.toNat < 128 && isWhitespace c with
  | [] => none
  | c :: rest =>
    if c = '+' ∨ c = '-' then parseI64 (c :: rest.takeWhile isAsciiDigit)
    else parseI64 ((c :: rest).takeWhile isAsciiDigit)

/-- A line with a `=` in it. -/
def parseLine (line : List Char) : Option (String × String) :=
  match line.dropWhile (· ≠ '=') with
  | [] => none
  | _ :: value =>
    some (String.ofList (trimmed (line.takeWhile (· ≠ '='))), String.ofList (trimmed value))

structure ConfigManager where
  values : Std.TreeMap String String

namespace ConfigManager

def new : ConfigManager := ⟨∅⟩

/-- The map with the entries of a file. -/
def withFile (self : ConfigManager) : Option String → ConfigManager
  | none => self
  | some text => ⟨self.values.insertMany ((lines text.toList).filterMap parseLine)⟩

/-- Empty for an absent key. -/
def get (self : ConfigManager) (key : String) : String := (self.values[key]?).getD ""

def set (self : ConfigManager) (key value : String) : ConfigManager :=
  ⟨self.values.insert key value⟩

/-- One turn of the loop of `load`. -/
def loadLine (self : ConfigManager) (line : List Char) : Option ConfigManager :=
  match findBy (· == '=') line with
  | none => some self
  | some delimiter => do
    let key ← trim (← slice line 0 delimiter)
    let value ← trim (← slice line (delimiter + 1) (utf8Len line))
    return self.set (String.ofList key) (String.ofList value)

/-- A missing file leaves the map untouched; `none` is a panic. -/
def load (self : ConfigManager) : Option String → Option ConfigManager
  | none => some self
  | some text => (lines text.toList).foldlM loadLine self

def line (entry : String × String) : List Char := entry.1.toList ++ '=' :: entry.2.toList

/-- The text `save` writes, in the order of the keys. -/
def text (self : ConfigManager) : String :=
  String.ofList ((self.values.toList.map line).flatMap (· ++ ['\n']))

end ConfigManager

/-- What a file says of its keys. -/
def read (file : Option String) : ConfigManager := ConfigManager.new.withFile file

/-! ## Lines of the file -/

theorem parseLine_line {key value : List Char} (h : '=' ∉ key) :
    parseLine (key ++ '=' :: value) =
      some (String.ofList (trimmed key), String.ofList (trimmed value)) := by
  have hall : ∀ c ∈ key, decide (c ≠ '=') = true := fun c hc =>
    decide_eq_true fun heq => h (heq ▸ hc)
  unfold parseLine
  rw [List.dropWhile_append_of_pos hall, List.takeWhile_append_of_pos hall]
  simp

/-- A key and a value that stand on a line as they are. -/
structure Plain (key value : String) : Prop where
  noEquals : '=' ∉ key.toList
  keyLine : '\n' ∉ key.toList
  valueLine : '\n' ∉ value.toList
  keyTrim : trimmed key.toList = key.toList
  valueTrim : trimmed value.toList = value.toList

theorem plain_of_parseLine {line : List Char} (hline : '\n' ∉ line) {key value : String}
    (h : parseLine line = some (key, value)) : Plain key value := by
  unfold parseLine at h
  cases hdrop : line.dropWhile (· ≠ '=') with
  | nil =>
    rw [hdrop] at h
    cases h
  | cons c rest =>
    rw [hdrop] at h
    obtain ⟨rfl, rfl⟩ := Prod.mk.inj (Option.some.inj h)
    have hkey : ∀ {d}, d ∈ trimmed (line.takeWhile (· ≠ '=')) → d ∈ line.takeWhile (· ≠ '=') :=
      mem_trimBy
    have hvalue : ∀ {d}, d ∈ trimmed rest → d ∈ line := fun hd =>
      (List.dropWhile_suffix _).subset (hdrop ▸ List.mem_cons_of_mem c (mem_trimBy hd))
    refine ⟨?_, ?_, ?_, ?_, ?_⟩ <;> rw [String.toList_ofList]
    · intro hmem
      have := List.mem_takeWhile_imp (hkey hmem)
      exact absurd rfl (of_decide_eq_true this)
    · exact fun hmem => hline ((List.takeWhile_prefix _).subset (hkey hmem))
    · exact fun hmem => hline (hvalue hmem)
    · exact trimBy_trimBy _ _
    · exact trimBy_trimBy _ _

/-- What is read of a value that was written. -/
def reread (value : String) : String := String.ofList (trimmed (stripCr value.toList))

/-- Only a `\r` at its end is lost of a value. -/
theorem reread_eq_iff {key value : String} (h : Plain key value) :
    reread value = value ↔ value.toList.getLast? ≠ some '\r' := by
  unfold reread
  constructor
  · intro heq hcr
    have hle := trimBy_length_le isBlank (stripCr value.toList)
    have hlt := stripCr_length hcr
    have := congrArg String.toList heq
    rw [String.toList_ofList] at this
    rw [← trimmed, this] at hle
    omega
  · intro hcr
    rw [stripCr_eq_self hcr, h.valueTrim, String.ofList_toList]

/-- An entry, written and read. -/
theorem parseLine_written {key value : String} (h : Plain key value) :
    parseLine (stripCr (ConfigManager.line (key, value))) = some (key, reread value) := by
  have hstrip : stripCr ('=' :: value.toList) = '=' :: stripCr value.toList := by
    by_cases hnil : value.toList = []
    · rw [hnil]
      rfl
    · exact @stripCr_append ['='] _ hnil
  unfold ConfigManager.line
  rw [stripCr_append (List.cons_ne_nil _ _), hstrip, parseLine_line h.noEquals, h.keyTrim,
    String.ofList_toList]
  rfl

/-! ## Panics -/

/-- Nothing, or a text with a last character of one byte. -/
def EndsAscii (text : List Char) : Prop := ∀ c ∈ text.getLast?, c.toNat < 128

instance (text : List Char) : Decidable (EndsAscii text) :=
  @Option.decidableForallMem Char (fun c => c.toNat < 128) _ text.getLast?

theorem utf8Size_eq_one_iff (c : Char) : c.utf8Size = 1 ↔ c.toNat < 128 :=
  Char.utf8Size_eq_one_iff.trans (by
    rw [UInt32.le_iff_toNat_le]
    exact Nat.lt_succ_iff.symm)

/-- The trimmer panics exactly on a last character that takes more than a byte. -/
theorem trim_eq (text : List Char) :
    trim text = if EndsAscii (trimmed text) then some (trimmed text) else none := by
  obtain ⟨front, back, htext, hfront, hback⟩ := trimBy_split isBlank text
  have hblank : ∀ {cs : List Char}, (∀ c ∈ cs, isBlank c = true) →
      ∀ c ∈ cs, (!isBlank c) = false := fun h c hc => by rw [h c hc, Bool.not_true]
  have hends := trimBy_eq_self_iff.1 (trimBy_trimBy isBlank text)
  change text = front ++ (trimmed text ++ back) at htext
  change (∀ c ∈ (trimmed text).head?, _) ∧ ∀ c ∈ (trimmed text).getLast?, _ at hends
  generalize trimmed text = mid at htext hends
  subst htext
  rcases List.eq_nil_or_concat mid with rfl | ⟨init, last, rfl⟩
  · have hall : ∀ c ∈ front ++ ([] ++ back), (!isBlank c) = false :=
      hblank fun c hc => (List.mem_append.1 hc).elim (hfront c) (hback c)
    rw [trim, findBy_eq_none hall, if_pos (by rintro c ⟨⟩)]
  · rw [List.concat_eq_append] at hends ⊢
    have hlast : (!isBlank last) = true := by
      rw [hends.2 last List.getLast?_concat, Bool.not_false]
    have hfind : findBy (fun c => !isBlank c) (front ++ (init ++ [last] ++ back)) =
        some (utf8Len front) := by
      cases init with
      | nil => exact findBy_append (hblank hfront) hlast _
      | cons first init =>
        have hfirst : (!isBlank first) = true := by
          rw [hends.1 first rfl, Bool.not_false]
        exact findBy_append (hblank hfront) hfirst _
    have hrfind : rfindBy (fun c => !isBlank c) (front ++ (init ++ [last] ++ back)) =
        some (utf8Len (front ++ init)) := by
      rw [List.append_assoc, ← List.append_assoc]
      exact rfindBy_append _ hlast (hblank hback)
    rw [trim, hfind]
    dsimp only
    rw [hrfind, Option.getD_some]
    by_cases hascii : last.toNat < 128
    · have hsize := (utf8Size_eq_one_iff last).2 hascii
      have hend : utf8Len (front ++ init) + 1 = utf8Len front + utf8Len (init ++ [last]) := by
        simp only [String.utf8Len_append, String.utf8Len_cons, hsize]
        rfl
      rw [hend, slice_middle, if_pos (by simpa [EndsAscii] using hascii)]
    · have hsize : last.utf8Size ≠ 1 := fun h => hascii ((utf8Size_eq_one_iff last).1 h)
      have hpos := last.utf8Size_pos
      have hboundary : isBoundary (front ++ (init ++ [last] ++ back))
          (utf8Len (front ++ init) + 1) = false := by
        rw [List.append_assoc, ← List.append_assoc, isBoundary_append_right (Nat.le_add_right _ _),
          Nat.add_sub_cancel_left, List.singleton_append, isBoundary]
        rw [decide_eq_false (by omega), Bool.false_and]
      rw [slice, if_neg fun h => absurd (hboundary.symm.trans h.2.2) Bool.false_ne_true,
        if_neg (by simpa [EndsAscii] using hascii)]

/-- The texts on both sides of the first `=`. -/
def halves (line : List Char) : Option (List Char × List Char) :=
  match line.dropWhile (· ≠ '=') with
  | [] => none
  | _ :: value => some (line.takeWhile (· ≠ '='), value)

theorem parseLine_eq (line : List Char) :
    parseLine line = (halves line).map fun h =>
      (String.ofList (trimmed h.1), String.ofList (trimmed h.2)) := by
  unfold parseLine halves
  cases line.dropWhile (· ≠ '=') with
  | nil => rfl
  | cons c value => rfl

/-- A line the trimmer takes. -/
def LineEndsAscii (line : List Char) : Prop :=
  ∀ h ∈ halves line, EndsAscii (trimmed h.1) ∧ EndsAscii (trimmed h.2)

instance (line : List Char) : Decidable (LineEndsAscii line) :=
  inferInstanceAs (Decidable (∀ h ∈ halves line, _))

theorem halves_eq_none {line : List Char} (h : halves line = none) :
    ∀ c ∈ line, (c == '=') = false := by
  unfold halves at h
  split at h
  · rename_i hdrop
    intro c hc
    have := List.dropWhile_eq_nil_iff.1 hdrop c hc
    simpa using this
  · cases h

theorem halves_eq_some {line key value : List Char} (h : halves line = some (key, value)) :
    line = key ++ '=' :: value ∧ ∀ c ∈ key, (c == '=') = false := by
  unfold halves at h
  split at h
  · cases h
  · rename_i c rest hdrop
    cases h
    have hc : c = '=' := by
      have hhead := List.head?_dropWhile_not (· ≠ '=') line
      rw [hdrop] at hhead
      simpa using hhead
    refine ⟨?_, fun d hd => by simpa using List.mem_takeWhile_imp hd⟩
    rw [hc] at hdrop
    rw [← hdrop, List.takeWhile_append_dropWhile]

namespace ConfigManager

/-- The map with the entry of a line. -/
def withLine (self : ConfigManager) (line : List Char) : ConfigManager :=
  (parseLine line).elim self fun entry => self.set entry.1 entry.2

theorem loadLine_eq (self : ConfigManager) (line : List Char) :
    self.loadLine line = if LineEndsAscii line then some (self.withLine line) else none := by
  unfold loadLine withLine
  rw [parseLine_eq]
  cases hhalves : halves line with
  | none =>
    rw [findBy_eq_none (halves_eq_none hhalves), if_pos (by simp [LineEndsAscii, hhalves])]
    rfl
  | some h =>
    obtain ⟨key, value⟩ := h
    obtain ⟨rfl, hkey⟩ := halves_eq_some hhalves
    have hfront : slice (key ++ '=' :: value) 0 (utf8Len key) = some key := by
      simpa using slice_middle [] key ('=' :: value)
    have hback : slice (key ++ '=' :: value) (utf8Len key + 1) (utf8Len (key ++ '=' :: value)) =
        some value := by
      have hsize : utf8Len (key ++ ['=']) = utf8Len key + 1 := String.utf8Len_append ..
      have hmiddle := slice_middle (key ++ ['=']) value []
      rw [hsize, ← hsize, ← String.utf8Len_append, hsize, List.append_nil, List.append_assoc]
        at hmiddle
      exact hmiddle
    have hends : LineEndsAscii (key ++ '=' :: value) ↔
        EndsAscii (trimmed key) ∧ EndsAscii (trimmed value) := by
      simp [LineEndsAscii, hhalves]
    rw [findBy_append hkey (beq_self_eq_true '=')]
    dsimp only
    rw [hfront, hback]
    simp only [Option.bind_eq_bind, Option.bind_some, trim_eq, hends]
    by_cases hk : EndsAscii (trimmed key)
    · by_cases hv : EndsAscii (trimmed value)
      · rw [if_pos hk, if_pos hv, if_pos ⟨hk, hv⟩]
        rfl
      · rw [if_pos hk, if_neg hv, if_neg (fun h : _ ∧ _ => hv h.2)]
        rfl
    · rw [if_neg hk, if_neg (fun h : _ ∧ _ => hk h.1)]
      rfl

theorem foldl_withLine (self : ConfigManager) (ls : List (List Char)) :
    ls.foldl withLine self = ⟨self.values.insertMany (ls.filterMap parseLine)⟩ := by
  induction ls generalizing self with
  | nil => rfl
  | cons line ls ih =>
    rw [List.foldl_cons, ih, withLine]
    cases hline : parseLine line with
    | none => rw [List.filterMap_cons_none hline]; rfl
    | some entry =>
      rw [List.filterMap_cons_some hline, Std.TreeMap.insertMany_cons]
      rfl

theorem foldlM_loadLine (self : ConfigManager) (ls : List (List Char)) :
    ls.foldlM loadLine self =
      if ∀ line ∈ ls, LineEndsAscii line then some (ls.foldl withLine self) else none := by
  induction ls generalizing self with
  | nil => rw [if_pos (by simp)]; rfl
  | cons line ls ih =>
    rw [List.foldlM_cons, loadLine_eq]
    by_cases hline : LineEndsAscii line
    · rw [if_pos hline, Option.bind_eq_bind, Option.bind_some, ih]
      exact if_congr (by rw [List.forall_mem_cons, and_iff_right hline]) rfl rfl
    · rw [if_neg hline, if_neg fun h => hline (h line List.mem_cons_self)]
      rfl

/-- No line of the file makes the trimmer panic. -/
def Loads (file : Option String) : Prop :=
  ∀ text ∈ file, ∀ line ∈ lines text.toList, LineEndsAscii line

instance (file : Option String) : Decidable (Loads file) :=
  inferInstanceAs (Decidable (∀ text ∈ file, ∀ line ∈ lines text.toList, LineEndsAscii line))

theorem load_eq (self : ConfigManager) (file : Option String) :
    self.load file = if Loads file then some (self.withFile file) else none := by
  cases file with
  | none => rw [if_pos (by rintro text ⟨⟩)]; rfl
  | some text =>
    have hloads : Loads (some text) ↔ ∀ line ∈ lines text.toList, LineEndsAscii line := by
      simp [Loads]
    rw [load, foldlM_loadLine, foldl_withLine]
    exact if_congr hloads.symm rfl rfl

end ConfigManager

/-! ## Maps of plain entries -/

namespace ConfigManager

/-- Every entry stands on a line as it is. -/
def WellFormed (m : ConfigManager) : Prop :=
  ∀ key value, m.values[key]? = some value → Plain key value

theorem new_wellFormed : new.WellFormed := by
  intro key value h
  unfold new at h
  rw [Std.TreeMap.getElem?_emptyc] at h
  cases h

theorem WellFormed.set {m : ConfigManager} (h : m.WellFormed) {key value : String}
    (hplain : Plain key value) : (m.set key value).WellFormed := by
  intro key' value' hget
  unfold ConfigManager.set at hget
  rw [Std.TreeMap.getElem?_insert] at hget
  split_ifs at hget with heq
  · obtain rfl := Option.some.inj hget
    obtain rfl := Std.compare_eq_iff_eq.1 heq
    exact hplain
  · exact h key' value' hget

theorem set_get (m : ConfigManager) (key value key' : String) :
    (m.set key value).values[key']? = if key = key' then some value else m.values[key']? := by
  unfold set
  rw [Std.TreeMap.getElem?_insert]
  exact if_congr Std.compare_eq_iff_eq rfl rfl

theorem read_wellFormed (file : Option String) : (read file).WellFormed := by
  cases file with
  | none => exact new_wellFormed
  | some text =>
    intro key value h
    unfold read withFile new at h
    rw [Std.TreeMap.getElem?_insertMany_list, Std.TreeMap.getElem?_emptyc, Option.or_none,
      List.findSomeRev?_eq_findSome?_reverse] at h
    obtain ⟨⟨key', value'⟩, hmem, hentry⟩ := List.exists_of_findSome?_eq_some h
    dsimp only at hentry
    split_ifs at hentry with heq
    obtain rfl := Std.compare_eq_iff_eq.1 heq
    obtain rfl := Option.some.inj hentry
    obtain ⟨line, hline, hparse⟩ := List.mem_filterMap.1 (List.mem_reverse.1 hmem)
    exact plain_of_parseLine (newline_notMem_lines hline) hparse

variable {m : ConfigManager}

/-- The entries a written file is read into. -/
theorem entries_text (h : m.WellFormed) :
    (lines m.text.toList).filterMap parseLine =
      m.values.toList.map fun entry => (entry.1, reread entry.2) := by
  have hplain : ∀ entry ∈ m.values.toList, Plain entry.1 entry.2 := fun entry hmem =>
    h entry.1 entry.2 (Std.TreeMap.mem_toList_iff_getElem?_eq_some.1 hmem)
  have hlines : ∀ l ∈ m.values.toList.map line, '\n' ∉ l := by
    intro l hl
    obtain ⟨entry, hmem, rfl⟩ := List.mem_map.1 hl
    have hentry := hplain entry hmem
    unfold line
    rw [List.mem_append, List.mem_cons, not_or, not_or]
    exact ⟨hentry.keyLine, by decide, hentry.valueLine⟩
  unfold text
  rw [String.toList_ofList, lines_written hlines, List.map_map, List.filterMap_map]
  have hentries : ∀ entry ∈ m.values.toList,
      (parseLine ∘ stripCr ∘ line) entry = some (entry.1, reread entry.2) :=
    fun entry hmem => parseLine_written (hplain entry hmem)
  rw [List.filterMap_congr hentries, ← List.filterMap_eq_map]
  rfl

/-- A map that was written is read again, but for the `\r` at the end of a value. -/
theorem read_text (h : m.WellFormed) (key : String) :
    (read (some m.text)).values[key]? = (m.values[key]?).map reread := by
  have hkeys : List.Pairwise (fun a b => ¬ compare a.1 b.1 = .eq)
      (m.values.toList.map fun entry => (entry.1, reread entry.2)) :=
    List.pairwise_map.2 Std.TreeMap.distinct_keys_toList
  unfold read withFile new
  dsimp only
  rw [entries_text h]
  cases hget : m.values[key]? with
  | some value =>
    have hmem := Std.TreeMap.mem_toList_iff_getElem?_eq_some.2 hget
    exact Std.TreeMap.getElem?_insertMany_list_of_mem (Std.compare_eq_iff_eq.2 rfl) hkeys
      (List.mem_map.2 ⟨_, hmem, rfl⟩)
  | none =>
    have hnone : (List.map Prod.fst
        (m.values.toList.map fun entry => (entry.1, reread entry.2))).contains key = false := by
      rw [List.map_map, ← Bool.not_eq_true, List.contains_iff_mem]
      intro hmem
      obtain ⟨⟨key', value⟩, hentry, rfl⟩ := List.mem_map.1 hmem
      have hsome := Std.TreeMap.mem_toList_iff_getElem?_eq_some.1 hentry
      dsimp only [Function.comp_apply] at hget
      rw [hsome] at hget
      cases hget
    rw [Std.TreeMap.getElem?_insertMany_list_of_contains_eq_false hnone,
      Std.TreeMap.getElem?_emptyc]
    rfl

end ConfigManager

end TreeMiner.Config
