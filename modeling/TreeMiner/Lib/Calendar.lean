import Mathlib.Data.Int.ConditionallyCompleteOrder
import Mathlib.Data.Int.Order.Basic
import Mathlib.Data.Int.SuccPred
import Mathlib.Tactic.IntervalCases

/-! The proleptic Gregorian calendar, for all integer years. A date carries its own
validity; dates are numbered from 1 January 1970, and the numbering keeps their order. -/

namespace TreeMiner.Lib

def IsLeap (y : Int) : Prop := y % 4 = 0 ∧ (y % 100 ≠ 0 ∨ y % 400 = 0)

instance (y : Int) : Decidable (IsLeap y) := inferInstanceAs (Decidable (_ ∧ _))

def yearLength (y : Int) : Int := if IsLeap y then 366 else 365

def monthLength (y m : Int) : Int :=
  if m = 2 then if IsLeap y then 29 else 28
  else if m = 4 ∨ m = 6 ∨ m = 9 ∨ m = 11 then 30 else 31

/-- A date of the calendar. -/
@[ext] structure Date where
  year : Int
  month : Int
  day : Int
  month_pos : 1 ≤ month
  month_le : month ≤ 12
  day_pos : 1 ≤ day
  day_le : day ≤ monthLength year month
deriving DecidableEq

/-- Days from 1 January 1970 to 1 January of a year. -/
def yearStart (y : Int) : Int := 365 * (y - 1970) + ((y - 1) / 4 - (y - 1) / 100 + (y - 1) / 400 - 477)

/-- Days from 1 January to the first of month `n + 1`. -/
def monthStart (y : Int) : Nat → Int
  | 0 => 0
  | n + 1 => monthStart y n + monthLength y (n + 1)

/-- Days from 1 January 1970 to day `d` of month `m`. -/
def dayNumber (y m d : Int) : Int := yearStart y + monthStart y (m - 1).toNat + (d - 1)

theorem yearStart_epoch : yearStart 1970 = 0 := by decide

theorem yearStart_succ (y : Int) : yearStart (y + 1) = yearStart y + yearLength y := by
  unfold yearStart yearLength IsLeap
  split_ifs <;> omega

theorem yearLength_pos (y : Int) : 0 < yearLength y := by
  unfold yearLength
  split_ifs <;> decide

theorem yearStart_strictMono : StrictMono yearStart :=
  strictMono_int_of_lt_succ fun y => by
    rw [yearStart_succ]
    have := yearLength_pos y
    omega

/-- The months of a year fill it. -/
theorem monthStart_twelve (y : Int) : monthStart y 12 = yearLength y := by
  by_cases h : IsLeap y <;> simp [monthStart, monthLength, yearLength, h]

theorem monthLength_pos (y m : Int) : 0 < monthLength y m := by
  unfold monthLength
  split_ifs <;> decide

theorem monthLength_le (y m : Int) : monthLength y m ≤ 31 := by
  unfold monthLength
  split_ifs <;> decide

theorem monthStart_strictMono (y : Int) : StrictMono (monthStart y) :=
  strictMono_nat_of_lt_succ fun n => by
    have := monthLength_pos y (n + 1)
    rw [monthStart]
    omega

/-- A sum over at most twelve months, written out. -/
theorem monthStart_eq (y : Int) {m : Int} (h1 : 1 ≤ m) (h12 : m ≤ 12) :
    monthStart y (m - 1).toNat =
      if m ≤ 2 then 31 * (m - 1)
      else (153 * (m - 3) + 2) / 5 + 59 + if IsLeap y then 1 else 0 := by
  interval_cases m <;> by_cases h : IsLeap y <;> simp [monthStart, monthLength, h]

namespace Date

/-- Days from 1 January of its year. -/
def dayOfYear (a : Date) : Int := monthStart a.year (a.month - 1).toNat + (a.day - 1)

def number (a : Date) : Int := dayNumber a.year a.month a.day

theorem number_eq (a : Date) : a.number = yearStart a.year + a.dayOfYear := by
  unfold number dayNumber dayOfYear
  omega

theorem month_toNat (a : Date) : ((a.month - 1).toNat : Int) + 1 = a.month := by
  have := a.month_pos
  omega

/-- The days of a month end where the next month starts. -/
theorem dayOfYear_lt_monthStart (a : Date) : a.dayOfYear < monthStart a.year a.month.toNat := by
  have hm : a.month.toNat = (a.month - 1).toNat + 1 := by
    have := a.month_pos
    omega
  have hd := a.day_le
  rw [hm, monthStart, a.month_toNat, dayOfYear]
  omega

theorem monthStart_le_dayOfYear (a : Date) :
    monthStart a.year (a.month - 1).toNat ≤ a.dayOfYear := by
  have := a.day_pos
  rw [dayOfYear]
  omega

theorem dayOfYear_nonneg (a : Date) : 0 ≤ a.dayOfYear :=
  ((monthStart_strictMono a.year).monotone (Nat.zero_le _)).trans a.monthStart_le_dayOfYear

theorem dayOfYear_lt (a : Date) : a.dayOfYear < yearLength a.year := by
  have hm : a.month.toNat ≤ 12 := by
    have := a.month_le
    omega
  rw [← monthStart_twelve]
  exact a.dayOfYear_lt_monthStart.trans_le ((monthStart_strictMono a.year).monotone hm)

theorem one_le_monthLength (y m : Int) : 1 ≤ monthLength y m := monthLength_pos y m

/-- The day after: in the month, in the year, or the first of the next one. -/
def next (a : Date) : Date :=
  if hd : a.day < monthLength a.year a.month then
    ⟨a.year, a.month, a.day + 1, a.month_pos, a.month_le, by have := a.day_pos; omega, by omega⟩
  else if hm : a.month < 12 then
    ⟨a.year, a.month + 1, 1, by have := a.month_pos; omega, by omega, le_rfl,
      one_le_monthLength _ _⟩
  else ⟨a.year + 1, 1, 1, le_rfl, by decide, le_rfl, one_le_monthLength _ _⟩

theorem number_next (a : Date) : a.next.number = a.number + 1 := by
  have hpos := a.month_pos
  have hmonth : monthStart a.year a.month.toNat =
      monthStart a.year (a.month - 1).toNat + monthLength a.year a.month := by
    rw [show a.month.toNat = (a.month - 1).toNat + 1 by omega, monthStart, a.month_toNat]
  unfold next
  split_ifs with hd hm
  · simp only [number, dayNumber]
    omega
  · have hend : a.day = monthLength a.year a.month := by have := a.day_le; omega
    simp only [number, dayNumber, add_sub_cancel_right, hmonth]
    omega
  · have hend : a.day = monthLength a.year a.month := by have := a.day_le; omega
    have hlast : a.month.toNat = 12 := by have := a.month_le; omega
    rw [hlast, monthStart_twelve] at hmonth
    have hfirst : monthStart (a.year + 1) ((1 : Int) - 1).toNat = 0 := rfl
    simp only [number, dayNumber, yearStart_succ, hfirst]
    omega

/-- 1 January of a year. -/
def newYear (y : Int) : Date := ⟨y, 1, 1, le_rfl, by decide, le_rfl, one_le_monthLength _ _⟩

theorem number_newYear (y : Int) : (newYear y).number = yearStart y := by
  simp [number, dayNumber, newYear, monthStart]

theorem exists_number_add (a : Date) (n : Nat) : ∃ b : Date, b.number = a.number + n := by
  induction n with
  | zero => exact ⟨a, by simp⟩
  | succ n ih =>
    obtain ⟨b, hb⟩ := ih
    exact ⟨b.next, by rw [number_next, hb]; omega⟩

/-- Every integer numbers a day. -/
theorem number_surjective : Function.Surjective number := by
  intro z
  have hlow : (newYear (min z 0)).number ≤ z := by
    rw [number_newYear, yearStart]
    omega
  obtain ⟨n, hn⟩ := Int.le.dest hlow
  obtain ⟨a, ha⟩ := exists_number_add (newYear (min z 0)) n
  exact ⟨a, ha.trans hn⟩

/-- Earlier: by year, then month, then day. -/
def Before (a b : Date) : Prop :=
  a.year < b.year ∨ a.year = b.year ∧
    (a.month < b.month ∨ a.month = b.month ∧ a.day < b.day)

instance (a b : Date) : Decidable (a.Before b) := inferInstanceAs (Decidable (_ ∨ _))

theorem before_trichotomy (a b : Date) : a.Before b ∨ a = b ∨ b.Before a := by
  unfold Before
  rcases lt_trichotomy a.year b.year with hy | hy | hy
  · exact .inl (.inl hy)
  · rcases lt_trichotomy a.month b.month with hm | hm | hm
    · exact .inl (.inr ⟨hy, .inl hm⟩)
    · rcases lt_trichotomy a.day b.day with hd | hd | hd
      · exact .inl (.inr ⟨hy, .inr ⟨hm, hd⟩⟩)
      · exact .inr (.inl (Date.ext hy hm hd))
      · exact .inr (.inr (.inr ⟨hy.symm, .inr ⟨hm.symm, hd⟩⟩))
    · exact .inr (.inr (.inr ⟨hy.symm, .inl hm⟩))
  · exact .inr (.inr (.inl hy))

theorem number_lt_of_before {a b : Date} (h : a.Before b) : a.number < b.number := by
  rw [number_eq, number_eq]
  rcases h with hy | ⟨hy, hm | ⟨hm, hd⟩⟩
  · -- the whole rest of the year of `a` lies between them
    have hnext : yearStart (a.year + 1) ≤ yearStart b.year :=
      yearStart_strictMono.monotone (by omega)
    have ha := a.dayOfYear_lt
    have hb := b.dayOfYear_nonneg
    rw [yearStart_succ] at hnext
    omega
  · have hnext : monthStart a.year a.month.toNat ≤ monthStart b.year (b.month - 1).toNat := by
      rw [hy]
      exact (monthStart_strictMono b.year).monotone (by omega)
    have ha := a.dayOfYear_lt_monthStart
    have hb := b.monthStart_le_dayOfYear
    rw [hy] at hnext ha ⊢
    omega
  · unfold dayOfYear
    rw [hy, hm]
    omega

/-- The numbering keeps the order of the dates. -/
theorem number_lt_iff {a b : Date} : a.number < b.number ↔ a.Before b := by
  refine ⟨fun h => ?_, number_lt_of_before⟩
  rcases a.before_trichotomy b with hab | rfl | hba
  · exact hab
  · exact absurd h (lt_irrefl _)
  · exact absurd (number_lt_of_before hba) (lt_asymm h)

theorem number_injective : Function.Injective number := by
  intro a b h
  rcases a.before_trichotomy b with hab | hab | hba
  · exact absurd h (number_lt_of_before hab).ne
  · exact hab
  · exact absurd h (number_lt_of_before hba).ne'

end Date

end TreeMiner.Lib
