import TreeMiner.Submit.CivilTime

/-! HTTP `Date` headers: the six fields the parser reads, and the round trip of the fixed
format that a server writes. -/

namespace TreeMiner
open Lib

/-- What an accepted header says. The day is not checked against its month. -/
structure HttpDate where
  year : Int
  month : Int
  day : Int
  hour : Int
  minute : Int
  second : Int
  year_ge : 1970 ≤ year
  month_mem : 1 ≤ month ∧ month ≤ 12
  day_mem : 1 ≤ day ∧ day ≤ 31
  hour_mem : 0 ≤ hour ∧ hour ≤ 23
  minute_mem : 0 ≤ minute ∧ minute ≤ 59
  second_mem : 0 ≤ second ∧ second ≤ 60
deriving DecidableEq

namespace HttpDate

def ofFields (year month day hour minute second : Int) : Option HttpDate :=
  if h : 1970 ≤ year ∧ (1 ≤ month ∧ month ≤ 12) ∧ (1 ≤ day ∧ day ≤ 31) ∧
      (0 ≤ hour ∧ hour ≤ 23) ∧ (0 ≤ minute ∧ minute ≤ 59) ∧ 0 ≤ second ∧ second ≤ 60 then
    some ⟨year, month, day, hour, minute, second, h.1, h.2.1, h.2.2.1, h.2.2.2.1, h.2.2.2.2.1,
      h.2.2.2.2.2⟩
  else none

/-- Seconds into the day. -/
def clock (t : HttpDate) : Int := t.hour * 3600 + t.minute * 60 + t.second

/-- The epoch second the fields name on the calendar. -/
def epochSecond (t : HttpDate) : Int := dayNumber t.year t.month t.day * 86400 + t.clock

def instant (t : HttpDate) : Int := t.epochSecond * 1000

theorem instant_eq (t : HttpDate) :
    t.instant = dayNumber t.year t.month t.day * 86400000 + t.clock * 1000 := by
  unfold instant epochSecond
  omega

/-- No header names a second before 1970. -/
theorem dayNumber_nonneg (t : HttpDate) : 0 ≤ dayNumber t.year t.month t.day := by
  have hyear := yearStart_strictMono.monotone t.year_ge
  have hmonth := (monthStart_strictMono t.year).monotone (Nat.zero_le (t.month - 1).toNat)
  have hday := t.day_mem
  rw [yearStart_epoch] at hyear
  rw [monthStart] at hmonth
  unfold dayNumber
  omega

theorem epochSecond_nonneg (t : HttpDate) : 0 ≤ t.epochSecond := by
  have hday := t.dayNumber_nonneg
  have hh := t.hour_mem
  have hmi := t.minute_mem
  have hs := t.second_mem
  unfold epochSecond clock
  omega

end HttpDate

/-- The fields of a header: what follows a comma, split at blanks. -/
def httpDateWords (dateHeader : String) : List String :=
  splitAsciiWhitespace (match dateHeader.toList.dropWhile (· != ',') with
    | [] => dateHeader.toList
    | _ :: rest => rest)

/-- The date an accepted header gives. -/
def httpDate (dateHeader : String) : Option HttpDate :=
  match httpDateWords dateHeader with
  | day :: mon :: year :: hms :: tz :: _ =>
    if tz ≠ "GMT" ∧ tz ≠ "UTC" then none
    else do
      let day ← parseUnsigned u32Max day
      let year ← parseI64 year.toList
      let (h, mi, s) ← parseHms hms
      HttpDate.ofFields year (monthFromName mon) day h mi s
  | _ => none

theorem parseHms_nonneg {hms : String} {h mi s : Int} (hp : parseHms hms = some (h, mi, s)) :
    0 ≤ h ∧ 0 ≤ mi ∧ 0 ≤ s := by
  unfold parseHms at hp
  split at hp
  · split_ifs at hp
    cases hp
    omega
  · cases hp

theorem monthFromName_mem (mon : String) : 0 ≤ monthFromName mon ∧ monthFromName mon ≤ 12 := by
  unfold monthFromName
  split
  · rename_i i hi
    have hlt : i < 12 := (List.idxOf?_eq_some_iff.1 hi).1
    omega
  · decide

/-- The guards of the parser are the bounds of a date. -/
theorem ofFields_instant {y m h mi s : Int} {d : Nat} (hm : 0 ≤ m ∧ m ≤ 12)
    (hh : 0 ≤ h ∧ 0 ≤ mi ∧ 0 ≤ s) :
    (HttpDate.ofFields y m d h mi s).map HttpDate.instant =
      if m = 0 ∨ ¬ (1 ≤ d ∧ d ≤ 31) ∨ y < 1970 then none
      else if h > 23 ∨ mi > 59 ∨ s > 60 then none
      else some (daysFromCivil y m d * 86400000 + (h * 3600 + mi * 60 + s) * 1000) := by
  unfold HttpDate.ofFields
  split_ifs with hok h1 h2 h3 h4
  all_goals first
    | omega
    | rfl
    | (rw [Option.map_some, HttpDate.instant_eq, daysFromCivil_eq _ _ (by omega) (by omega)]
       rfl)

/-- The parser reads the fields and gives their instant. -/
theorem parseHttpDateMs_eq (dateHeader : String) :
    parseHttpDateMs dateHeader = (httpDate dateHeader).map HttpDate.instant := by
  unfold parseHttpDateMs httpDate httpDateWords
  dsimp only
  generalize splitAsciiWhitespace _ = words
  rcases words with _ | ⟨day, _ | ⟨mon, _ | ⟨year, _ | ⟨hms, _ | ⟨tz, words⟩⟩⟩⟩⟩
  case cons.cons.cons.cons.cons =>
    dsimp only
    by_cases htz : tz ≠ "GMT" ∧ tz ≠ "UTC"
    · rw [if_pos htz]
      cases parseUnsigned u32Max day <;> cases parseI64 year.toList <;> simp [htz]
    · rw [if_neg htz]
      cases hday : parseUnsigned u32Max day with
      | none => rfl
      | some d =>
        cases hyear : parseI64 year.toList with
        | none => rfl
        | some y =>
          cases hhms : parseHms hms with
          | none =>
            simp [htz]
          | some t =>
            obtain ⟨h, mi, s⟩ := t
            simpa [htz] using (ofFields_instant (monthFromName_mem mon) (parseHms_nonneg hhms)).symm
  all_goals rfl

/-! ## The fixed format -/

/-- 1 January 1970 was a Thursday. -/
def weekday (z : Int) : String :=
  ["Thu", "Fri", "Sat", "Sun", "Mon", "Tue", "Wed"].getD (z % 7).toNat ""

def monthName (m : Int) : String :=
  ["Jan", "Feb", "Mar", "Apr", "May", "Jun", "Jul", "Aug", "Sep", "Oct", "Nov", "Dec"].getD
    (m - 1).toNat ""

/-- The IMF-fixdate of an epoch second: `Sun, 06 Nov 1994 08:49:37 GMT`. -/
def imfFixdate (s : Int) : String :=
  let a := civilDate (s / 86400)
  weekday (s / 86400) ++ ", " ++ decimal 2 a.day ++ " " ++ monthName a.month ++ " " ++
    decimal 4 a.year ++ " " ++ clockText (s % 86400) ++ " GMT"

example : imfFixdate 784111777 = "Sun, 06 Nov 1994 08:49:37 GMT" := by decide

theorem monthFromName_monthName {m : Int} (h : 1 ≤ m) (h12 : m ≤ 12) :
    monthFromName (monthName m) = m := by
  interval_cases m <;> decide

/-- A word at the front of blank-separated words. -/
theorem splitAsciiWhitespace_cons {w : String} {rest : List Char} (hne : w ≠ "")
    (hw : w.toList.all (!isAsciiWhitespace ·) = true) :
    splitAsciiWhitespace (w.toList ++ ' ' :: rest) = w :: splitAsciiWhitespace rest := by
  have hno : ∀ c ∈ w.toList, isAsciiWhitespace c = false := by simpa using hw
  have hnil : w.toList ≠ [] := by simpa using hne
  unfold splitAsciiWhitespace
  rw [List.splitOnP_append_cons_of_forall_mem hno _ (by decide),
    List.filter_cons_of_pos (by simpa using hnil), List.map_cons, String.ofList_toList]

theorem splitAsciiWhitespace_single {w : String} (hne : w ≠ "")
    (hw : w.toList.all (!isAsciiWhitespace ·) = true) : splitAsciiWhitespace w.toList = [w] := by
  have hno : ∀ c ∈ w.toList, isAsciiWhitespace c = false := by simpa using hw
  have hnil : w.toList ≠ [] := by simpa using hne
  unfold splitAsciiWhitespace
  rw [List.splitOnP_eq_singleton hno, List.filter_cons_of_pos (by simpa using hnil)]
  simp

theorem digits_isAsciiDigit (w n : Nat) : (digits w n).all isAsciiDigit = true := by
  rw [List.all_eq_true]
  intro c hc
  obtain ⟨k, hk, rfl⟩ := mem_digits hc
  interval_cases k <;> decide

theorem digits_no_blank (w n : Nat) : (digits w n).all (!isAsciiWhitespace ·) = true := by
  rw [List.all_eq_true]
  intro c hc
  obtain ⟨k, hk, rfl⟩ := mem_digits hc
  interval_cases k <;> decide

theorem digitVal_digitChar {k : Nat} (h : k < 10) : digitVal k.digitChar = k := by
  interval_cases k <;> decide

theorem natOfDigits_digits {w n : Nat} (h : n < 10 ^ w) : natOfDigits (digits w n) = n := by
  have hv := ofDigitChars_digits h
  rw [Nat.ofDigitChars_eq_foldl] at hv
  unfold natOfDigits digitVal
  simpa only [Nat.mul_comm 10] using hv

theorem digits_ne_nil {w n : Nat} (hw : 0 < w) : digits w n ≠ [] := by
  intro h
  have hlen := digits_length w n
  rw [h] at hlen
  exact hw.ne hlen

/-- The day of a month in two digits. -/
theorem parseUnsigned_decimal {n : Int} (h0 : 0 ≤ n) (h : n < 100) :
    parseUnsigned u32Max (decimal 2 n) = some n.toNat := by
  have hval := @natOfDigits_digits 2 n.toNat (by omega)
  rw [decimal, parseUnsigned_of_digits (digits_ne_nil (by decide)) (digits_isAsciiDigit 2 _)
    (by rw [hval, u32Max]; omega), hval]

theorem parseI64_decimal {n : Int} (h0 : 0 ≤ n) (h : n < 10000) :
    parseI64 (decimal 4 n).toList = some n := by
  have hval := @natOfDigits_digits 4 n.toNat (by omega)
  rw [decimal, String.toList_ofList,
    parseI64_of_digits (digits_ne_nil (by decide)) (digits_isAsciiDigit 4 _)
      (by rw [hval, i64Max]; omega), hval, Int.toNat_of_nonneg h0]

/-- Two digits give their number back. -/
theorem digits_two {n : Nat} (h : n < 100) :
    ∃ c d, digits 2 n = [c, d] ∧ isAsciiDigit c = true ∧ isAsciiDigit d = true ∧
      digitVal c * 10 + digitVal d = n := by
  have hall := digits_isAsciiDigit 2 n
  refine ⟨(n / 10 % 10).digitChar, (n % 10).digitChar, rfl, ?_, ?_, ?_⟩
  · exact List.all_eq_true.1 hall _ (by simp [digits])
  · exact List.all_eq_true.1 hall _ (by simp [digits])
  · rw [digitVal_digitChar (Nat.mod_lt _ (by decide)),
      digitVal_digitChar (Nat.mod_lt _ (by decide))]
    omega

theorem parseHms_clockText {t : Int} (h0 : 0 ≤ t) (h : t < 86400) :
    parseHms (clockText t) = some (t / 3600, t % 3600 / 60, t % 60) := by
  obtain ⟨h1, h2, hh, dh1, dh2, vh⟩ := @digits_two (t / 3600).toNat (by omega)
  obtain ⟨m1, m2, hm, dm1, dm2, vm⟩ := @digits_two (t % 3600 / 60).toNat (by omega)
  obtain ⟨s1, s2, hs, ds1, ds2, vs⟩ := @digits_two (t % 60).toNat (by omega)
  have htext : (clockText t).toList = [h1, h2, ':', m1, m2, ':', s1, s2] := by
    simp [clockText, decimal, hh, hm, hs]
  unfold parseHms
  rw [htext]
  simp only [List.all_cons, List.all_nil, dh1, dh2, dm1, dm2, ds1, ds2, Bool.and_self, if_true,
    Option.some.injEq, Prod.mk.injEq]
  omega

theorem splitAsciiWhitespace_blank (rest : List Char) :
    splitAsciiWhitespace (' ' :: rest) = splitAsciiWhitespace rest := by
  have hnone : ∀ c ∈ ([] : List Char), isAsciiWhitespace c = false := by simp
  have hcut := List.splitOnP_append_cons_of_forall_mem hnone ' ' (by decide) rest
  rw [List.nil_append] at hcut
  unfold splitAsciiWhitespace
  rw [hcut]
  simp

theorem weekday_no_comma (z : Int) : (weekday z).toList.all (· != ',') = true := by
  have h0 : 0 ≤ z % 7 := Int.emod_nonneg _ (by decide)
  have h7 : z % 7 < 7 := Int.emod_lt_of_pos _ (by decide)
  unfold weekday
  interval_cases z % 7 <;> decide

theorem monthName_word {m : Int} (h : 1 ≤ m) (h12 : m ≤ 12) :
    monthName m ≠ "" ∧ (monthName m).toList.all (!isAsciiWhitespace ·) = true := by
  interval_cases m <;> decide

theorem decimal_word {w : Nat} (n : Int) (hw : 0 < w) :
    decimal w n ≠ "" ∧ (decimal w n).toList.all (!isAsciiWhitespace ·) = true := by
  refine ⟨fun h => ?_, ?_⟩
  · have hlist := congrArg String.toList h
    rw [decimal, String.toList_ofList] at hlist
    exact digits_ne_nil hw hlist
  · rw [decimal, String.toList_ofList]
    exact digits_no_blank w _

theorem clockText_word (t : Int) :
    clockText t ≠ "" ∧ (clockText t).toList.all (!isAsciiWhitespace ·) = true := by
  have hlist : (clockText t).toList = digits 2 (t / 3600).toNat ++ ':' ::
      (digits 2 (t % 3600 / 60).toNat ++ ':' :: digits 2 (t % 60).toNat) := by
    simp [clockText, decimal]
  refine ⟨fun h => ?_, ?_⟩
  · rw [h] at hlist
    simp [digits] at hlist
  · rw [hlist]
    simp only [List.all_append, List.all_cons, digits_no_blank]
    decide

/-- What stands before the first comma is skipped. -/
theorem httpDateWords_comma {dateHeader : String} {weekday rest : List Char}
    (h : dateHeader.toList = weekday ++ ',' :: rest) (hw : weekday.all (· != ',') = true) :
    httpDateWords dateHeader = splitAsciiWhitespace rest := by
  unfold httpDateWords
  rw [h, List.dropWhile_append_of_pos (List.all_eq_true.1 hw),
    List.dropWhile_cons_of_neg (by decide)]

/-- The five words of the fixed format. -/
theorem httpDateWords_imfFixdate (s : Int) :
    httpDateWords (imfFixdate s) =
      [decimal 2 (civilDate (s / 86400)).day, monthName (civilDate (s / 86400)).month,
        decimal 4 (civilDate (s / 86400)).year, clockText (s % 86400), "GMT"] := by
  obtain ⟨hday, hday'⟩ := decimal_word (w := 2) (civilDate (s / 86400)).day (by decide)
  obtain ⟨hmon, hmon'⟩ := monthName_word (civilDate (s / 86400)).month_pos
    (civilDate (s / 86400)).month_le
  obtain ⟨hyear, hyear'⟩ := decimal_word (w := 4) (civilDate (s / 86400)).year (by decide)
  obtain ⟨hclock, hclock'⟩ := clockText_word (s % 86400)
  have htext : (imfFixdate s).toList = (weekday (s / 86400)).toList ++ ',' :: ' ' ::
      ((decimal 2 (civilDate (s / 86400)).day).toList ++ ' ' ::
        ((monthName (civilDate (s / 86400)).month).toList ++ ' ' ::
          ((decimal 4 (civilDate (s / 86400)).year).toList ++ ' ' ::
            ((clockText (s % 86400)).toList ++ ' ' :: "GMT".toList)))) := by
    simp [imfFixdate]
  rw [httpDateWords_comma htext (weekday_no_comma _), splitAsciiWhitespace_blank,
    splitAsciiWhitespace_cons hday hday', splitAsciiWhitespace_cons hmon hmon',
    splitAsciiWhitespace_cons hyear hyear', splitAsciiWhitespace_cons hclock hclock',
    splitAsciiWhitespace_single (by decide) (by decide)]

/-- The parser takes the fixed format back to its second. -/
theorem parseHttpDateMs_imfFixdate {s : Int} (hy : 1970 ≤ (civilDate (s / 86400)).year)
    (hy' : (civilDate (s / 86400)).year ≤ 9999) :
    parseHttpDateMs (imfFixdate s) = some (1000 * s) := by
  have ht : 0 ≤ s % 86400 := Int.emod_nonneg _ (by decide)
  have ht' : s % 86400 < 86400 := Int.emod_lt_of_pos _ (by decide)
  have hnum := civilDate_number (s / 86400)
  generalize hdate : civilDate (s / 86400) = a at *
  have hlen : a.day ≤ 31 := a.day_le.trans (monthLength_le _ _)
  have hday : parseUnsigned u32Max (decimal 2 a.day) = some a.day.toNat :=
    parseUnsigned_decimal (by have := a.day_pos; omega) (by omega)
  have hyear : parseI64 (decimal 4 a.year).toList = some a.year :=
    parseI64_decimal (by omega) (by omega)
  rw [parseHttpDateMs_eq, httpDate, httpDateWords_imfFixdate, hdate]
  simp only [hday, hyear, parseHms_clockText ht ht', monthFromName_monthName a.month_pos a.month_le,
    Option.bind_eq_bind, Option.bind_some, ne_eq, not_true_eq_false, false_and, if_false]
  have hpos := a.month_pos
  have hdpos := a.day_pos
  rw [ofFields_instant ⟨by omega, a.month_le⟩ (by omega), if_neg (by omega), if_neg (by omega),
    Int.toNat_of_nonneg (by omega), daysFromCivil_date, hnum]
  congr 1
  omega

/-- The clock's two formulas are inverse to each other, and the parser to the fixed format. -/
theorem clock_round_trips :
    (∀ s : Int, 1970 ≤ (civilDate (s / 86400)).year → (civilDate (s / 86400)).year ≤ 9999 →
      parseHttpDateMs (imfFixdate s) = some (1000 * s)) ∧
    (∀ a : Date, civilFromDays (daysFromCivil a.year a.month a.day) = (a.year, a.month, a.day)) ∧
    ∀ z : Int, daysFromCivil (civilFromDays z).1 (civilFromDays z).2.1 (civilFromDays z).2.2 = z := by
  refine ⟨fun s => parseHttpDateMs_imfFixdate, fun a => ?_, fun z => ?_⟩
  · rw [daysFromCivil_date, civilFromDays_number]
  · obtain ⟨a, ha, hz⟩ := civilFromDays_spec z
    rw [ha]
    exact (daysFromCivil_date a).trans hz

/-- The last second of the year 9999. -/
theorem clock_round_trips_last_second :
    parseHttpDateMs (imfFixdate 253402300799) = some 253402300799000 :=
  clock_round_trips.1 253402300799 (by decide) (by decide)

end TreeMiner
