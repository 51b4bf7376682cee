import TreeMiner.Core.Prim

/-! Time helpers of the submitter. Epoch milliseconds are integers, the source's `i64`
without its bounds. -/

namespace TreeMiner

def MS_PER_HOUR : Int := 3600 * 1000

/-- :55 -/
def XUNI_OPEN_BEFORE_HOUR_MS : Int := 5 * 60 * 1000

/-- :05 -/
def XUNI_OPEN_AFTER_HOUR_MS : Int := 5 * 60 * 1000

structure XuniWindowState where
  isOpen : Bool
  msUntilClose : Int
deriving DecidableEq, Repr

/-- Days since 1970-01-01 of a proleptic Gregorian date. -/
def daysFromCivil (y m d : Int) : Int :=
  let y := if m ≤ 2 then y - 1 else y
  let era := (if 0 ≤ y then y else y - 399).tdiv 400
  let yoe := y - era * 400
  let doy := (153 * (m + if 2 < m then -3 else 9) + 2).tdiv 5 + d - 1
  let doe := yoe * 365 + yoe.tdiv 4 - yoe.tdiv 100 + doy
  era * 146097 + doe - 719468

/-- The inverse: year, month, day. -/
def civilFromDays (z : Int) : Int × Int × Int :=
  let z := z + 719468
  let era := (if 0 ≤ z then z else z - 146096).tdiv 146097
  let doe := z - era * 146097
  let yoe := (doe - doe.tdiv 1460 + doe.tdiv 36524 - doe.tdiv 146096).tdiv 365
  let y := yoe + era * 400
  let doy := doe - (365 * yoe + yoe.tdiv 4 - yoe.tdiv 100)
  let mp := (5 * doy + 2).tdiv 153
  let d := doy - (153 * mp + 2).tdiv 5 + 1
  let m := if mp < 10 then mp + 3 else mp - 9
  (if m ≤ 2 then y + 1 else y, m, d)

def floorDiv (a b : Int) : Int :=
  let q := a.tdiv b
  if a.tmod b ≠ 0 ∧ (decide (a < 0) ≠ decide (b < 0)) then q - 1 else q

/-- `{n:0width$}` for an integer: zeros between the sign and the digits. -/
def zeroPad (width : Nat) (n : Int) : String :=
  let digits := (toString n.natAbs).toList
  let sign := if n < 0 then ['-'] else []
  String.ofList (sign ++ List.replicate (width - sign.length - digits.length) '0' ++ digits)

/-- `YYYY-MM-DDThh:mm:ssZ` -/
def isoUtc (epochMs : Int) : String :=
  let days := floorDiv epochMs 86400000
  let rem := epochMs - days * 86400000
  let (y, mo, da) := civilFromDays days
  let h := rem.tdiv 3600000
  let rem := rem.tmod 3600000
  let mi := rem.tdiv 60000
  let rem := rem.tmod 60000
  let s := rem.tdiv 1000
  zeroPad 4 y ++ "-" ++ zeroPad 2 mo ++ "-" ++ zeroPad 2 da ++ "T" ++ zeroPad 2 h ++ ":" ++
    zeroPad 2 mi ++ ":" ++ zeroPad 2 s ++ "Z"

/-- 1 to 12, or 0 for a text that names no month. -/
def monthFromName (mon : String) : Int :=
  match ["Jan", "Feb", "Mar", "Apr", "May", "Jun", "Jul", "Aug", "Sep", "Oct", "Nov",
    "Dec"].idxOf? mon with
  | some i => i + 1
  | none => 0

/-- `str::split_ascii_whitespace` -/
def splitAsciiWhitespace (cs : List Char) : List String :=
  ((cs.splitOnP isAsciiWhitespace).filter fun w => !w.isEmpty).map String.ofList

/-- The three two-digit numbers of `hh:mm:ss`. -/
def parseHms (hms : String) : Option (Int × Int × Int) :=
  match hms.toList with
  | [h1, h2, ':', m1, m2, ':', s1, s2] =>
    if [h1, h2, m1, m2, s1, s2].all isAsciiDigit then
      some (digitVal h1 * 10 + digitVal h2, digitVal m1 * 10 + digitVal m2,
        digitVal s1 * 10 + digitVal s2)
    else none
  | _ => none

/-- An HTTP `Date` header; the weekday before the comma is skipped, not checked. -/
def parseHttpDateMs (dateHeader : String) : Option Int :=
  let cs := dateHeader.toList
  let rest := match cs.dropWhile (· != ',') with
    | [] => cs
    | _ :: rest => rest
  match splitAsciiWhitespace rest with
  | day :: mon :: year :: hms :: tz :: _ => do
    let day ← parseUnsigned u32Max day
    let year ← parseI64 year.toList
    if tz ≠ "GMT" ∧ tz ≠ "UTC" then none
    else
      let month := monthFromName mon
      if month = 0 ∨ ¬ (1 ≤ day ∧ day ≤ 31) ∨ year < 1970 then none
      else
        let (h, mi, s) ← parseHms hms
        if h > 23 ∨ mi > 59 ∨ s > 60 then none
        else some (daysFromCivil year month day * 86400000 + (h * 3600 + mi * 60 + s) * 1000)
  | _ => none

/-- The XUNI submission window on the server's clock: minutes 55 to 5 of the hour. -/
def xuniWindowAt (serverEpochMs : Int) : XuniWindowState :=
  let intoHour := serverEpochMs - floorDiv serverEpochMs MS_PER_HOUR * MS_PER_HOUR
  if intoHour ≥ MS_PER_HOUR - XUNI_OPEN_BEFORE_HOUR_MS then
    ⟨true, MS_PER_HOUR - intoHour + XUNI_OPEN_AFTER_HOUR_MS⟩
  else if intoHour < XUNI_OPEN_AFTER_HOUR_MS then
    ⟨true, XUNI_OPEN_AFTER_HOUR_MS - intoHour⟩
  else ⟨false, 0⟩

theorem floorDiv_eq (a : Int) {b : Int} (hb : 0 < b) : floorDiv a b = a / b := by
  have hq := Int.tdiv_eq_ediv (a := a) (b := b)
  have hnb : ¬ b < 0 := by omega
  rw [Int.sign_eq_one_of_pos hb] at hq
  unfold floorDiv
  by_cases ha : 0 ≤ a
  · rw [if_pos (Or.inl ha)] at hq
    simp [show ¬ a < 0 by omega, hnb, hq]
  · by_cases hd : b ∣ a
    · rw [if_pos (Or.inr hd)] at hq
      simp [Int.tmod_eq_zero_of_dvd hd, hq]
    · rw [if_neg (not_or.2 ⟨ha, hd⟩)] at hq
      have hm : a.tmod b ≠ 0 := fun h => hd (Int.dvd_of_tmod_eq_zero h)
      simp [hm, show a < 0 by omega, hnb, hq]

example : isoUtc 1700000000000 = "2023-11-14T22:13:20Z" := by decide

example : parseHttpDateMs "Tue, 14 Nov 2023 22:13:20 GMT" = some 1700000000000 := by decide

end TreeMiner
