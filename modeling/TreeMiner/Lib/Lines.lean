import Mathlib.Data.List.DropRight

/-! The lines of a text, ended by `\n` or `\r\n`, and texts written line by line; and the
blanks at both ends of a line. -/

namespace TreeMiner.Lib

/-! ## Lines -/

/-- The `\r` of a line's end. -/
def stripCr (line : List Char) : List Char :=
  if line.getLast? = some '\r' then line.dropLast else line

/-- The lines of a text behind the characters of a line that has begun. What stands behind the
last `\n` keeps its `\r`. -/
def splitLines (begun : List Char) : List Char → List (List Char)
  | [] => if begun.isEmpty then [] else [begun]
  | c :: cs => if c = '\n' then stripCr begun :: splitLines [] cs else splitLines (begun ++ [c]) cs

def lines (text : List Char) : List (List Char) := splitLines [] text

theorem splitLines_append {line : List Char} (h : '\n' ∉ line) (begun rest : List Char) :
    splitLines begun (line ++ '\n' :: rest) = stripCr (begun ++ line) :: lines rest := by
  induction line generalizing begun with
  | nil => rw [List.nil_append, splitLines, if_pos rfl, List.append_nil, lines]
  | cons c line ih =>
    rw [List.mem_cons, not_or] at h
    rw [List.cons_append, splitLines, if_neg (Ne.symm h.1), ih h.2, List.append_assoc]
    rfl

/-- Written with `\n` behind each, lines are read again, but for a `\r` at their end. -/
theorem lines_written {ls : List (List Char)} (h : ∀ l ∈ ls, '\n' ∉ l) :
    lines (ls.flatMap (· ++ ['\n'])) = ls.map stripCr := by
  induction ls with
  | nil => rfl
  | cons l ls ih =>
    rw [List.flatMap_cons, List.append_assoc, List.singleton_append, List.map_cons, lines,
      splitLines_append (h l List.mem_cons_self), ih fun l hl => h l (List.mem_cons_of_mem _ hl)]
    rfl

theorem mem_stripCr {line : List Char} {c : Char} (h : c ∈ stripCr line) : c ∈ line := by
  unfold stripCr at h
  split_ifs at h
  · exact List.dropLast_subset _ h
  · exact h

theorem newline_notMem_splitLines {begun text : List Char} (hbegun : '\n' ∉ begun)
    {line : List Char} (h : line ∈ splitLines begun text) : '\n' ∉ line := by
  induction text generalizing begun with
  | nil =>
    unfold splitLines at h
    split_ifs at h
    · cases h
    · rwa [List.mem_singleton.1 h]
  | cons c text ih =>
    unfold splitLines at h
    split_ifs at h with hc
    · rcases List.mem_cons.1 h with rfl | h
      · exact fun hmem => hbegun (mem_stripCr hmem)
      · exact ih List.not_mem_nil h
    · refine ih ?_ h
      rw [List.mem_append, List.mem_singleton, not_or]
      exact ⟨hbegun, Ne.symm hc⟩

theorem newline_notMem_lines {text line : List Char} (h : line ∈ lines text) : '\n' ∉ line :=
  newline_notMem_splitLines List.not_mem_nil h

theorem stripCr_eq_self {line : List Char} (h : line.getLast? ≠ some '\r') : stripCr line = line :=
  if_neg h

theorem stripCr_length {line : List Char} (h : line.getLast? = some '\r') :
    (stripCr line).length < line.length := by
  have hne : line ≠ [] := by
    rintro rfl
    cases h
  rw [stripCr, if_pos h, List.length_dropLast]
  exact Nat.sub_lt (List.length_pos_iff.2 hne) Nat.one_pos

theorem stripCr_append {front back : List Char} (h : back ≠ []) :
    stripCr (front ++ back) = front ++ stripCr back := by
  unfold stripCr
  rw [List.getLast?_append_of_ne_nil _ h, List.dropLast_append_of_ne_nil h]
  split_ifs <;> rfl

theorem splitLines_of_notMem {text : List Char} (h : '\n' ∉ text) (begun : List Char) :
    splitLines begun text = if (begun ++ text).isEmpty then [] else [begun ++ text] := by
  induction text generalizing begun with
  | nil => rw [splitLines, List.append_nil]
  | cons c text ih =>
    rw [List.mem_cons, not_or] at h
    rw [splitLines, if_neg (Ne.symm h.1), ih h.2, List.append_assoc]
    rfl

/-- Split at line feeds, all pieces but the last are lines without their `\r`; the last is a
line as it is, unless it is empty. -/
theorem lines_splitOn (text : List Char) :
    ∃ ended last, text.splitOn '\n' = ended ++ [last] ∧
      lines text = ended.map stripCr ++ if last.isEmpty then [] else [last] := by
  induction hn : text.length using Nat.strongRecOn generalizing text with
  | ind n ih =>
    by_cases hmem : '\n' ∈ text
    · obtain ⟨line, rest, rfl, hline⟩ := List.eq_append_cons_of_mem hmem
      obtain ⟨ended, last, hsplit, hlines⟩ := ih rest.length
        (by rw [← hn, List.length_append, List.length_cons]; omega) rest rfl
      refine ⟨line :: ended, last, ?_, ?_⟩
      · rw [List.splitOn_append_cons_self_of_not_mem hline, hsplit]
        rfl
      · rw [lines, splitLines_append hline, hlines]
        rfl
    · refine ⟨[], text, List.splitOn_eq_singleton hmem, ?_⟩
      rw [lines, splitLines_of_notMem hmem]
      rfl

/-! ## Blanks -/

/-- Without the characters at both ends that are blank. -/
def trimBy (blank : Char → Bool) (text : List Char) : List Char :=
  (text.dropWhile blank).rdropWhile blank

variable {blank : Char → Bool} {text : List Char}

theorem mem_trimBy {c : Char} (h : c ∈ trimBy blank text) : c ∈ text :=
  (List.dropWhile_suffix _).subset ((List.rdropWhile_prefix _ _).subset h)

theorem trimBy_eq_self (h : ∀ c ∈ text, blank c = false) : trimBy blank text = text := by
  have hfront : text.dropWhile blank = text :=
    List.dropWhile_eq_self_iff.2 fun hl => ne_true_of_eq_false (h _ (List.getElem_mem hl))
  rw [trimBy, hfront]
  exact List.rdropWhile_eq_self_iff.2 fun hl => ne_true_of_eq_false (h _ (List.getLast_mem hl))

theorem trimBy_length_le (blank : Char → Bool) (text : List Char) :
    (trimBy blank text).length ≤ text.length :=
  Nat.le_trans (List.rdropWhile_prefix _ _).length_le (List.dropWhile_suffix _).length_le

theorem dropWhile_trimBy (blank : Char → Bool) (text : List Char) :
    (trimBy blank text).dropWhile blank = trimBy blank text := by
  rw [List.dropWhile_eq_self_iff]
  intro hl
  have hprefix := List.rdropWhile_prefix blank (text.dropWhile blank)
  have hpos := Nat.lt_of_lt_of_le hl hprefix.length_le
  have hhead := List.dropWhile_get_zero_not blank text hpos
  rwa [show (trimBy blank text)[0] = (text.dropWhile blank)[0] from hprefix.getElem hl]

theorem trimBy_trimBy (blank : Char → Bool) (text : List Char) :
    trimBy blank (trimBy blank text) = trimBy blank text := by
  rw [trimBy, dropWhile_trimBy]
  exact List.rdropWhile_idempotent _ _

/-- Blanks, what is left of the text, and blanks. -/
theorem trimBy_split (blank : Char → Bool) (text : List Char) :
    ∃ front back, text = front ++ (trimBy blank text ++ back) ∧
      (∀ c ∈ front, blank c = true) ∧ ∀ c ∈ back, blank c = true := by
  refine ⟨text.takeWhile blank, (text.dropWhile blank).rtakeWhile blank, ?_,
    fun c hc => List.mem_takeWhile_imp hc, fun c hc => List.mem_rtakeWhile_imp hc⟩
  rw [trimBy, List.rdropWhile_append_rtakeWhile, List.takeWhile_append_dropWhile]

theorem trimBy_concat {c : Char} (hc : blank c = false) :
    trimBy blank (text ++ [c]) = text.dropWhile blank ++ [c] := by
  have hdrop : (text ++ [c]).dropWhile blank = text.dropWhile blank ++ [c] := by
    induction text with
    | nil => simp [hc]
    | cons d text ih =>
      by_cases hd : blank d = true
      · rw [List.cons_append, List.dropWhile_cons_of_pos hd, List.dropWhile_cons_of_pos hd, ih]
      · rw [List.cons_append, List.dropWhile_cons_of_neg hd, List.dropWhile_cons_of_neg hd]
        rfl
  rw [trimBy, hdrop, List.rdropWhile_concat_neg _ _ _ (ne_true_of_eq_false hc)]

/-- A text is trimmed if it neither begins nor ends with a blank. -/
theorem trimBy_eq_self_iff : trimBy blank text = text ↔
    (∀ c ∈ text.head?, blank c = false) ∧ ∀ c ∈ text.getLast?, blank c = false := by
  have hfront : text.dropWhile blank = text ↔ ∀ c ∈ text.head?, blank c = false := by
    cases text with
    | nil => simp
    | cons c cs => simp [List.dropWhile_eq_self_iff]
  have hback : text.rdropWhile blank = text ↔ ∀ c ∈ text.getLast?, blank c = false := by
    rw [List.rdropWhile_eq_self_iff]
    cases text using List.reverseRecOn with
    | nil => simp
    | append_singleton cs c => simp
  rw [← hfront, ← hback]
  constructor
  · intro h
    have hdrop := dropWhile_trimBy blank text
    rw [h] at hdrop
    rw [trimBy, hdrop] at h
    exact ⟨hdrop, h⟩
  · rintro ⟨hdrop, hrdrop⟩
    rw [trimBy, hdrop, hrdrop]

end TreeMiner.Lib
