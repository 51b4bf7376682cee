import TreeMiner.Lib.Calendar
import TreeMiner.Lib.Digits
import TreeMiner.Submit.ClockTime

/-! The two closed formulas of the submitter's clock against the calendar. Both count in
years that start in March, so that the leap day is the last day of a year. -/

namespace TreeMiner
open Lib

/-- The division of both formulas is the floor, below zero too. -/
theorem tdiv_era (a : Int) {b : Int} (hb : 0 < b) :
    (if 0 ≤ a then a else a - (b - 1)).tdiv b = a / b := by
  split_ifs with ha
  · exact Int.tdiv_eq_ediv_of_nonneg ha
  · have hr := Int.emod_nonneg a hb.ne'
    have hlt := Int.emod_lt_of_pos a hb
    have hsplit : b - 1 - a = (b - 1 - a % b) + b * -(a / b) := by
      have := Int.mul_ediv_add_emod a b
      rw [Int.mul_neg]
      omega
    rw [show a - (b - 1) = -(b - 1 - a) by omega, Int.neg_tdiv,
      Int.tdiv_eq_ediv_of_nonneg (by omega), hsplit, Int.add_mul_ediv_left _ _ hb.ne',
      Int.ediv_eq_zero_of_lt (by omega) (by omega)]
    omega

/-! ## The year that starts in March -/

/-- January and February belong to the year before. -/
def marchYear (y m : Int) : Int := if m ≤ 2 then y - 1 else y

/-- Months since March. -/
def marchMonth (m : Int) : Int := if m ≤ 2 then m + 9 else m - 3

/-- Days since 1 March. -/
def marchDay (m d : Int) : Int := (153 * marchMonth m + 2) / 5 + d - 1

theorem daysFromCivil_march (y d : Int) {m : Int} (hm : 1 ≤ m) :
    daysFromCivil y m d =
      365 * marchYear y m + marchYear y m / 4 - marchYear y m / 100 + marchYear y m / 400 +
        marchDay m d - 719468 := by
  have hera := tdiv_era (marchYear y m) (b := 400) (by decide)
  rw [show (400 : Int) - 1 = 399 by decide] at hera
  have hdoy : (153 * (m + if 2 < m then -3 else 9) + 2).tdiv 5 = (153 * marchMonth m + 2) / 5 := by
    unfold marchMonth
    rw [Int.tdiv_eq_ediv_of_nonneg (by split_ifs <;> omega)]
    split_ifs <;> omega
  simp only [daysFromCivil]
  rw [← marchYear, hdoy, hera, Int.tdiv_eq_ediv_of_nonneg (by omega),
    Int.tdiv_eq_ediv_of_nonneg (by omega)]
  unfold marchDay
  omega

/-- `days_from_civil` counts days, for a day past the end of its month too. -/
theorem daysFromCivil_eq (y d : Int) {m : Int} (hm : 1 ≤ m) (hm12 : m ≤ 12) :
    daysFromCivil y m d = dayNumber y m d := by
  rw [daysFromCivil_march y d hm, dayNumber, monthStart_eq y hm hm12]
  unfold marchYear marchDay marchMonth yearStart IsLeap
  split_ifs <;> omega

theorem daysFromCivil_date (a : Date) : daysFromCivil a.year a.month a.day = a.number :=
  daysFromCivil_eq a.year a.day a.month_pos a.month_le

/-- The last day of such a year is a leap day or the one before it. -/
theorem marchDay_bounds (a : Date) :
    0 ≤ marchDay a.month a.day ∧ marchDay a.month a.day ≤ 365 ∧
      (marchDay a.month a.day = 365 → IsLeap (marchYear a.year a.month + 1)) := by
  have hm := a.month_pos
  have hm12 := a.month_le
  have hd := a.day_pos
  have hlen := a.day_le
  unfold marchDay marchMonth marchYear
  unfold monthLength at hlen
  split_ifs at hlen ⊢ <;> refine ⟨?_, ?_, fun h => ?_⟩ <;> first
    | omega
    | simpa using ‹IsLeap a.year›

/-- The day tells the month: five months take 153 days. -/
theorem marchMonth_eq (a : Date) :
    (5 * marchDay a.month a.day + 2) / 153 = marchMonth a.month := by
  have hm := a.month_pos
  have hm12 := a.month_le
  have hd := a.day_pos
  have hlen := a.day_le
  unfold marchDay marchMonth
  unfold monthLength at hlen
  generalize a.month = m at *
  split_ifs at hlen ⊢ <;> interval_cases m <;> omega

/-- The year of an era from its day: the corrections of `yoe` take back one leap day every
four years, and give back one every hundred. -/
theorem yoe_eq {q r : Int} (hq : 0 ≤ q) (hq' : q < 400) (hr : 0 ≤ r) (hr' : r ≤ 365)
    (hleap : r = 365 → (q + 1) % 4 = 0 ∧ ((q + 1) % 100 ≠ 0 ∨ q = 399)) :
    let doe := 365 * q + q / 4 - q / 100 + r
    (doe - doe / 1460 + doe / 36524 - doe / 146096) / 365 = q := by
  intro doe
  have hfour : doe / 1460 =
      q / 4 + if 365 * (q % 4) + (q / 4 - q / 100) + r < 1460 then 0 else 1 := by
    split_ifs <;> omega
  have hlast : doe / 36524 - doe / 146096 = q / 100 := by
    obtain hend | ⟨rfl, rfl⟩ : 365 * (q % 100) + q % 100 / 4 + r < 36524 ∨ q = 399 ∧ r = 365 := by
      omega
    · obtain h | h | h | h : q / 100 = 0 ∨ q / 100 = 1 ∨ q / 100 = 2 ∨ q / 100 = 3 := by omega
      all_goals omega
    · -- 29 February of a year 400 divides ends the era
      decide
  rw [hfour, add_sub_assoc, hlast]
  split_ifs <;> omega

/-- Whole eras apart, the days of the years before `s`. -/
theorem era_split (s r : Int) :
    365 * s + s / 4 - s / 100 + s / 400 + r =
      s / 400 * 146097 + (365 * (s % 400) + s % 400 / 4 - s % 400 / 100 + r) := by
  omega

theorem doe_bounds {q r : Int} (hq : 0 ≤ q) (hq' : q < 400) (hr : 0 ≤ r) (hr' : r ≤ 365) :
    0 ≤ 365 * q + q / 4 - q / 100 + r ∧ 365 * q + q / 4 - q / 100 + r < 146097 := by
  omega

/-- What `civil_from_days` reads off day `r` of the year that starts in March of `s`. -/
theorem civilFromDays_march {s r : Int} (hr : 0 ≤ r) (hr' : r ≤ 365)
    (hleap : r = 365 → IsLeap (s + 1)) :
    civilFromDays (365 * s + s / 4 - s / 100 + s / 400 + r - 719468) =
      let mp := (5 * r + 2) / 153
      let m := if mp < 10 then mp + 3 else mp - 9
      (if m ≤ 2 then s + 1 else s, m, r - (153 * mp + 2) / 5 + 1) := by
  have hq : 0 ≤ s % 400 := Int.emod_nonneg _ (by decide)
  have hq' : s % 400 < 400 := Int.emod_lt_of_pos _ (by decide)
  obtain ⟨hlow, hhigh⟩ := doe_bounds hq hq' hr hr'
  have hyoe := yoe_eq hq hq' hr hr' (by unfold IsLeap at hleap; omega)
  have hs := Int.emod_add_mul_ediv s 400
  simp only [civilFromDays, sub_add_cancel, era_split s r]
  generalize s / 400 = era at *
  generalize s % 400 = q at *
  generalize hdoe : 365 * q + q / 4 - q / 100 + r = doe at *
  have hera : (if 0 ≤ era * 146097 + doe then era * 146097 + doe
      else era * 146097 + doe - 146096).tdiv 146097 = era := by
    rw [show (146096 : Int) = 146097 - 1 by decide, tdiv_era _ (by decide), Int.add_comm,
      Int.add_mul_ediv_right _ _ (by decide), Int.ediv_eq_zero_of_lt hlow hhigh, zero_add]
  have hyear : (doe - doe.tdiv 1460 + doe.tdiv 36524 - doe.tdiv 146096).tdiv 365 = q := by
    simp only [Int.tdiv_eq_ediv_of_nonneg hlow]
    rw [Int.tdiv_eq_ediv_of_nonneg (by omega), hyoe]
  have hday : doe - (365 * q + q.tdiv 4 - q.tdiv 100) = r := by
    rw [Int.tdiv_eq_ediv_of_nonneg hq, Int.tdiv_eq_ediv_of_nonneg hq]
    omega
  have hmp : (5 * r + 2).tdiv 153 = (5 * r + 2) / 153 := Int.tdiv_eq_ediv_of_nonneg (by omega)
  rw [hera, add_sub_cancel_left, hyear, hday, hmp, Int.tdiv_eq_ediv_of_nonneg (by omega),
    show q + era * 400 = s by omega]

/-- `civil_from_days` is the date of a day. -/
theorem civilFromDays_number (a : Date) : civilFromDays a.number = (a.year, a.month, a.day) := by
  obtain ⟨hday, hday', hleap⟩ := marchDay_bounds a
  have hpos := a.month_pos
  rw [← daysFromCivil_date, daysFromCivil_march _ _ hpos, civilFromDays_march hday hday' hleap]
  simp only [marchMonth_eq]
  have hm : (if marchMonth a.month < 10 then marchMonth a.month + 3 else marchMonth a.month - 9) =
      a.month := by
    have := a.month_le
    unfold marchMonth
    split_ifs <;> omega
  have hy : (if a.month ≤ 2 then marchYear a.year a.month + 1 else marchYear a.year a.month) =
      a.year := by
    unfold marchYear
    split_ifs <;> omega
  have hd : marchDay a.month a.day - (153 * marchMonth a.month + 2) / 5 + 1 = a.day := by
    unfold marchDay
    omega
  rw [hm, hy, hd]

/-- The day before and after the formulas: every day number comes from a date. -/
theorem civilFromDays_spec (z : Int) :
    ∃ a : Date, civilFromDays z = (a.year, a.month, a.day) ∧ a.number = z := by
  obtain ⟨a, rfl⟩ := Date.number_surjective z
  exact ⟨a, civilFromDays_number a, rfl⟩

/-- A day number as a date. -/
def civilDate (z : Int) : Date where
  year := (civilFromDays z).1
  month := (civilFromDays z).2.1
  day := (civilFromDays z).2.2
  month_pos := by obtain ⟨a, h, -⟩ := civilFromDays_spec z; rw [h]; exact a.month_pos
  month_le := by obtain ⟨a, h, -⟩ := civilFromDays_spec z; rw [h]; exact a.month_le
  day_pos := by obtain ⟨a, h, -⟩ := civilFromDays_spec z; rw [h]; exact a.day_pos
  day_le := by obtain ⟨a, h, -⟩ := civilFromDays_spec z; rw [h]; exact a.day_le

@[simp] theorem civilDate_number (z : Int) : (civilDate z).number = z := by
  obtain ⟨a, h, hz⟩ := civilFromDays_spec z
  have hdate : civilDate z = a := Date.ext (by simp [civilDate, h]) (by simp [civilDate, h])
    (by simp [civilDate, h])
  rw [hdate, hz]

/-! ## Fixed-width fields -/

def decimal (w : Nat) (n : Int) : String := String.ofList (digits w n.toNat)

/-- `hh:mm:ss` of a second of the day. -/
def clockText (t : Int) : String :=
  decimal 2 (t / 3600) ++ ":" ++ decimal 2 (t % 3600 / 60) ++ ":" ++ decimal 2 (t % 60)

end TreeMiner
