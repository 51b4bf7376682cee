import Mathlib.Data.Nat.Basic
import Mathlib.Data.Char
import Mathlib.Tactic.IntervalCases

/-! Decimals of a fixed width. Numbers written with equally many digits compare as texts
the way they compare as numbers, and a text of several such fields compares field by
field. -/

namespace TreeMiner.Lib

/-- A text with a field in front compares by the field first. -/
theorem append_lt_append_iff {α : Type*} [LinearOrder α] {xs ys us vs : List α}
    (h : xs.length = ys.length) : xs ++ us < ys ++ vs ↔ xs < ys ∨ xs = ys ∧ us < vs := by
  induction xs generalizing ys with
  | nil =>
    obtain rfl := List.length_eq_zero_iff.1 h.symm
    simp
  | cons x xs ih =>
    cases ys with
    | nil => cases h
    | cons y ys =>
      simp only [List.cons_append, List.cons_lt_cons_iff, ih (Nat.succ.inj h), List.cons.injEq]
      tauto

/-- The last `w` decimal digits of a number. -/
def digits : Nat → Nat → List Char
  | 0, _ => []
  | w + 1, n => digits w (n / 10) ++ [(n % 10).digitChar]

@[simp] theorem digits_length (w n : Nat) : (digits w n).length = w := by
  induction w generalizing n with
  | zero => rfl
  | succ w ih => simp [digits, ih]

theorem mem_digits {w n : Nat} {c : Char} (h : c ∈ digits w n) : ∃ k < 10, c = k.digitChar := by
  induction w generalizing n with
  | zero => cases h
  | succ w ih =>
    rcases List.mem_append.1 h with h | h
    · exact ih h
    · exact ⟨n % 10, Nat.mod_lt _ (by decide), List.mem_singleton.1 h⟩

theorem digitChar_lt_iff {a b : Nat} (ha : a < 10) (hb : b < 10) :
    a.digitChar < b.digitChar ↔ a < b := by
  interval_cases a <;> interval_cases b <;> decide

theorem digitChar_inj {a b : Nat} (ha : a < 10) (hb : b < 10) (h : a.digitChar = b.digitChar) :
    a = b := by
  rcases lt_trichotomy a b with hlt | heq | hlt
  · exact absurd h ((digitChar_lt_iff ha hb).2 hlt).ne
  · exact heq
  · exact absurd h ((digitChar_lt_iff hb ha).2 hlt).ne'

theorem digits_inj {w n k : Nat} (hn : n < 10 ^ w) (hk : k < 10 ^ w)
    (h : digits w n = digits w k) : n = k := by
  induction w generalizing n k with
  | zero => omega
  | succ w ih =>
    obtain ⟨hq, hr⟩ := List.append_inj h (by simp)
    have hq := ih (by omega) (by omega) hq
    have hr := digitChar_inj (Nat.mod_lt _ (by decide)) (Nat.mod_lt _ (by decide))
      (List.singleton_inj.1 hr)
    omega

/-- Equally wide decimals compare as texts the way they compare as numbers. -/
theorem digits_lt_iff {w n k : Nat} (hn : n < 10 ^ w) (hk : k < 10 ^ w) :
    digits w n < digits w k ↔ n < k := by
  induction w generalizing n k with
  | zero => simp [digits]; omega
  | succ w ih =>
    have hq : digits w (n / 10) = digits w (k / 10) ↔ n / 10 = k / 10 :=
      ⟨digits_inj (by omega) (by omega), fun h => by rw [h]⟩
    simp only [digits]
    rw [append_lt_append_iff (by simp), ih (by omega) (by omega), hq, List.cons_lt_cons_iff,
      digitChar_lt_iff (Nat.mod_lt _ (by decide)) (Nat.mod_lt _ (by decide))]
    simp only [List.not_lt_nil, and_false, or_false]
    omega

/-- Fields with one separator behind them compare by number, then by what follows. -/
theorem field_lt_iff {w n k : Nat} {sep : Char} {us vs : List Char} (hn : n < 10 ^ w)
    (hk : k < 10 ^ w) :
    digits w n ++ sep :: us < digits w k ++ sep :: vs ↔ n < k ∨ n = k ∧ us < vs := by
  have heq : digits w n = digits w k ↔ n = k := ⟨digits_inj hn hk, fun h => by rw [h]⟩
  rw [append_lt_append_iff (by simp), digits_lt_iff hn hk, heq, List.cons_lt_cons_iff]
  simp

theorem ofDigitChars_digits {w n : Nat} (h : n < 10 ^ w) :
    Nat.ofDigitChars 10 (digits w n) 0 = n := by
  induction w generalizing n with
  | zero => simp [digits]; omega
  | succ w ih =>
    rw [digits, Nat.ofDigitChars_append, ih (by omega),
      Nat.ofDigitChars_cons_digitChar_of_lt_ten (Nat.mod_lt _ (by decide)), Nat.ofDigitChars_nil]
    omega

/-- A decimal padded with zeros on the left. -/
theorem replicate_append_toDigits {w n : Nat} (h : n < 10 ^ (w + 1)) :
    List.replicate (w + 1 - (Nat.toDigits 10 n).length) '0' ++ Nat.toDigits 10 n =
      digits (w + 1) n := by
  induction w generalizing n with
  | zero =>
    rw [Nat.toDigits_of_lt_base (by omega)]
    simp [digits, Nat.mod_eq_of_lt (show n < 10 by omega)]
  | succ w ih =>
    rw [digits, ← ih (by omega)]
    by_cases hn : n < 10
    · rw [Nat.toDigits_of_lt_base hn, Nat.div_eq_of_lt hn, Nat.mod_eq_of_lt hn, Nat.toDigits_zero]
      simp [List.replicate_succ']
    · rw [Nat.toDigits_of_base_le (by decide) (by omega)]
      simp [List.append_assoc]

end TreeMiner.Lib
