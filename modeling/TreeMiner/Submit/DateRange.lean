import TreeMiner.Submit.HttpDate

/-! The range of the clock arithmetic behind a `Date` header. Every `i64` step of the
source is checked here, in its order, from the parsed fields to the window's clock. -/

namespace TreeMiner
open Lib

/-- `days_from_civil`, each step checked. -/
def daysFromCivilChecked (y m d : Int) : Option Int := do
  let y ← checkedI64 (if m ≤ 2 then y - 1 else y)
  let base ← checkedI64 (if 0 ≤ y then y else y - 399)
  let era := base.tdiv 400
  let eraYears ← checkedI64 (era * 400)
  let yoe ← checkedI64 (y - eraYears)
  let mp ← checkedI64 (m + if 2 < m then -3 else 9)
  let mpDays ← checkedI64 (153 * mp)
  let mpDays ← checkedI64 (mpDays + 2)
  let doy ← checkedI64 (mpDays.tdiv 5 + d)
  let doy ← checkedI64 (doy - 1)
  let doe ← checkedI64 (yoe * 365)
  let doe ← checkedI64 (doe + yoe.tdiv 4)
  let doe ← checkedI64 (doe - yoe.tdiv 100)
  let doe ← checkedI64 (doe + doy)
  let days ← checkedI64 (era * 146097)
  let days ← checkedI64 (days + doe)
  checkedI64 (days - 719468)

/-- The last line of `parse_http_date_ms`, each step checked. -/
def dateMsChecked (t : HttpDate) : Option Int := do
  let days ← daysFromCivilChecked t.year t.month t.day
  let date ← checkedI64 (days * 86400000)
  let h ← checkedI64 (t.hour * 3600)
  let mi ← checkedI64 (t.minute * 60)
  let clock ← checkedI64 (h + mi)
  let clock ← checkedI64 (clock + t.second)
  let clock ← checkedI64 (clock * 1000)
  checkedI64 (date + clock)

/-- From the fields of a header read at `wall` to the server's clock at `later`:
`track_server_date`, then the window of a submit step. -/
def serverClockChecked (t : HttpDate) (wall later : Int) : Option Int := do
  let serverMs ← dateMsChecked t
  let offset ← checkedI64 (serverMs - wall)
  checkedI64 (later + offset)

/-- The last millisecond of the year 9999. -/
def WALL_MAX_MS : Int := 253402300799999

/-- Checked steps compute what unchecked ones do. -/
theorem daysFromCivilChecked_eq_some {y m d v : Int} (h : daysFromCivilChecked y m d = some v) :
    daysFromCivil y m d = v ∧ InI64 v := by
  unfold daysFromCivilChecked at h
  simp only [Option.bind_eq_bind, checkedI64_bind_eq_some_iff, checkedI64_eq_some_iff] at h
  obtain ⟨-, -, -, -, -, -, -, -, -, -, -, -, -, -, -, hlast, hv⟩ := h
  exact ⟨hv, hv ▸ hlast⟩

theorem dateMsChecked_eq_some {t : HttpDate} {v : Int} (h : dateMsChecked t = some v) :
    t.instant = v ∧ InI64 v := by
  unfold dateMsChecked at h
  obtain ⟨days, hdays, h⟩ := Option.bind_eq_some_iff.1 h
  obtain ⟨rfl, -⟩ := daysFromCivilChecked_eq_some hdays
  simp only [Option.bind_eq_bind, checkedI64_bind_eq_some_iff, checkedI64_eq_some_iff] at h
  obtain ⟨-, -, -, -, -, -, hlast, hv⟩ := h
  refine ⟨?_, hv ▸ hlast⟩
  rw [← hv, daysFromCivil_eq _ _ t.month_mem.1 t.month_mem.2]
  rw [HttpDate.instant_eq]
  rfl

/-- No step of `days_from_civil` leaves the range from 1970 to day 1000000000000. -/
theorem daysFromCivilChecked_of_le {y m d : Int} (hy : 1970 ≤ y) (hm : 1 ≤ m) (hm' : m ≤ 12)
    (hd : 1 ≤ d) (hd' : d ≤ 31) (h : daysFromCivil y m d ≤ 1000000000000) :
    daysFromCivilChecked y m d = some (daysFromCivil y m d) := by
  rw [daysFromCivil_march y d hm] at h
  unfold daysFromCivilChecked
  simp only [Option.bind_eq_bind, checkedI64_bind_eq_some_iff, checkedI64_eq_some_iff]
  have hs : 1969 ≤ marchYear y m := by unfold marchYear; split_ifs <;> omega
  have hmp : 0 ≤ m + (if 2 < m then (-3 : Int) else 9) ∧ m + (if 2 < m then (-3 : Int) else 9) < 12 := by
    split_ifs <;> omega
  have hmonth : 0 ≤ marchMonth m := by unfold marchMonth; split_ifs <;> omega
  have hdays : daysFromCivil y m d = _ := rfl
  conv_rhs at hdays => unfold daysFromCivil
  unfold marchDay at h
  rw [← marchYear] at hdays ⊢
  generalize marchYear y m = s at *
  generalize m + (if 2 < m then (-3 : Int) else 9) = mp at *
  simp only [show 0 ≤ s by omega, if_true] at hdays ⊢
  have hyoe : 0 ≤ s - s / 400 * 400 := by omega
  rw [Int.tdiv_eq_ediv_of_nonneg (show 0 ≤ s by omega),
    Int.tdiv_eq_ediv_of_nonneg (show 0 ≤ 153 * mp + 2 by omega),
    Int.tdiv_eq_ediv_of_nonneg hyoe, Int.tdiv_eq_ediv_of_nonneg hyoe] at hdays ⊢
  unfold InI64 i64Min i64Max
  omega

theorem dateMsChecked_of_le {t : HttpDate} (h : t.instant ≤ i64Max) :
    dateMsChecked t = some t.instant := by
  obtain ⟨hm, hm'⟩ := t.month_mem
  have hday := daysFromCivil_eq t.year t.day hm hm'
  have hh := t.hour_mem
  have hmi := t.minute_mem
  have hs := t.second_mem
  have h0 := t.dayNumber_nonneg
  rw [HttpDate.instant_eq] at h ⊢
  unfold HttpDate.clock at h ⊢
  unfold dateMsChecked
  rw [daysFromCivilChecked_of_le t.year_ge hm hm' t.day_mem.1 t.day_mem.2
    (by rw [hday]; unfold i64Max at h; omega)]
  simp only [Option.bind_eq_bind, Option.bind_some, checkedI64_bind_eq_some_iff,
    checkedI64_eq_some_iff, hday, and_true]
  unfold InI64 i64Min i64Max
  unfold i64Max at h
  omega

/-- The parser's arithmetic is in range exactly for the dates up to the last `i64`. -/
theorem dateMsChecked_isSome_iff (t : HttpDate) :
    (dateMsChecked t).isSome ↔ t.instant ≤ i64Max := by
  constructor
  · intro h
    obtain ⟨v, hv⟩ := Option.isSome_iff_exists.1 h
    obtain ⟨rfl, -, hle⟩ := dateMsChecked_eq_some hv
    exact hle
  · intro h
    rw [dateMsChecked_of_le h]
    rfl

theorem serverClockChecked_isSome_iff (t : HttpDate) {wall later : Int}
    (hw : 0 ≤ wall ∧ wall ≤ WALL_MAX_MS) (hl : 0 ≤ later ∧ later ≤ WALL_MAX_MS) :
    (serverClockChecked t wall later).isSome ↔
      1000 * t.epochSecond ≤ i64Max - max 0 (later - wall) := by
  have h0 := t.epochSecond_nonneg
  unfold WALL_MAX_MS at hw hl
  unfold serverClockChecked
  constructor
  · intro h
    obtain ⟨v, hv⟩ := Option.isSome_iff_exists.1 h
    obtain ⟨ms, hms, hv⟩ := Option.bind_eq_some_iff.1 hv
    obtain ⟨rfl, -, hle⟩ := dateMsChecked_eq_some hms
    simp only [Option.bind_eq_bind, checkedI64_bind_eq_some_iff, checkedI64_eq_some_iff] at hv
    obtain ⟨-, ⟨-, hsum⟩, -⟩ := hv
    unfold HttpDate.instant at hle hsum
    omega
  · intro h
    have hle : t.instant ≤ i64Max := by unfold HttpDate.instant; omega
    rw [dateMsChecked_of_le hle]
    refine Option.isSome_iff_exists.2 ⟨later + (t.instant - wall), ?_⟩
    simp only [Option.bind_eq_bind, Option.bind_some, checkedI64_bind_eq_some_iff,
      checkedI64_eq_some_iff, and_true]
    unfold InI64 HttpDate.instant i64Min i64Max
    unfold i64Max at h
    omega

/-- What the parser accepts of a header read at `wall` overflows nothing up to `later`. -/
def DateInRange (dateHeader : String) (wall later : Int) : Prop :=
  ∀ t ∈ httpDate dateHeader, (serverClockChecked t wall later).isSome

/-- The clock arithmetic behind a header stays in range exactly when the second it names is
at most the last of an `i64` in milliseconds, less what the wall clock has advanced since. -/
theorem dateInRange_iff (dateHeader : String) (wall later : Int)
    (hw : 0 ≤ wall ∧ wall ≤ WALL_MAX_MS) (hl : 0 ≤ later ∧ later ≤ WALL_MAX_MS) :
    DateInRange dateHeader wall later ↔
      ∀ t ∈ httpDate dateHeader, 1000 * t.epochSecond ≤ i64Max - max 0 (later - wall) :=
  forall₂_congr fun t _ => serverClockChecked_isSome_iff t hw hl

/-- A date of 1994 read at its own second is in range up to the end of 9999. -/
theorem dateInRange_iff_ordinary :
    DateInRange "Sun, 06 Nov 1994 08:49:37 GMT" 784111777000 WALL_MAX_MS := by
  refine (dateInRange_iff _ _ _ (by decide) (by decide)).2 fun t ht => ?_
  have hdate : httpDate "Sun, 06 Nov 1994 08:49:37 GMT" = HttpDate.ofFields 1994 11 6 8 49 37 := by
    decide
  rw [hdate] at ht
  cases ht
  decide

/-- A year of nine digits overflows the milliseconds. -/
theorem dateInRange_year_292278995 :
    ¬ ∀ (dateHeader : String) (wall later : Int), 0 ≤ wall ∧ wall ≤ WALL_MAX_MS →
      0 ≤ later ∧ later ≤ WALL_MAX_MS → DateInRange dateHeader wall later := by
  intro h
  have hall := h "Sun, 06 Nov 292278995 08:49:37 GMT" 0 0 (by decide) (by decide)
  have hdate : httpDate "Sun, 06 Nov 292278995 08:49:37 GMT" =
      some ⟨292278995, 11, 6, 8, 49, 37, by decide, by decide, by decide, by decide, by decide,
        by decide⟩ := by
    decide
  have hnone := hall _ hdate
  revert hnone
  decide

end TreeMiner
