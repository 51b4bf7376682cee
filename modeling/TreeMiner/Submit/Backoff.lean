import Mathlib.Data.List.TakeWhile
import TreeMiner.Submit.Manager

/-! The backoff clock, with every `i64` operation of `backoff_time_iso` and
`parse_retry_after_seconds` checked: where the source overflows, these are `none`. -/

namespace TreeMiner

/-! ## `parse_retry_after_seconds` -/

/-- The digit loop. The inner `none` is the one the source returns. -/
def retryDigitsChecked (value : Int) : List Char → Option (Option (Int × List Char))
  | [] => some (some (value, []))
  | c :: rest =>
    if isAsciiDigit c then
      if value > 100000000 then some none
      else do
        let tens ← checkedI64 (value * 10)
        let value ← checkedI64 (tens + digitVal c)
        retryDigitsChecked value rest
    else some (some (value, c :: rest))

def parseRetryAfterSecondsChecked (headerValue : String) : Option (Option Int) :=
  match skipWs headerValue.toList with
  | [] => some none
  | c :: rest =>
    if isAsciiDigit c then do
      match ← retryDigitsChecked 0 (c :: rest) with
      | none => return none
      | some (value, rest) => return if skipWs rest = [] then some value else none
    else some none

theorem digitVal_lt {c : Char} (h : isAsciiDigit c = true) : digitVal c < 10 := by
  have h9 : ('9' : Char).toNat = 57 := rfl
  have h0 : ('0' : Char).toNat = 48 := rfl
  unfold isAsciiDigit at h
  rw [Bool.and_eq_true, decide_eq_true_eq, decide_eq_true_eq, char_le_iff, char_le_iff] at h
  unfold digitVal
  omega

/-- The guard in front of the multiplication keeps the value below `1000000010`. -/
theorem retryDigits_checked (cs : List Char) {value : Int} (hlow : 0 ≤ value)
    (hhigh : value ≤ 1000000009) : retryDigitsChecked value cs = some (retryDigits value cs) := by
  induction cs generalizing value with
  | nil => rfl
  | cons c cs ih =>
    unfold retryDigitsChecked retryDigits
    split_ifs with hdigit hlarge
    · rfl
    · have hd := digitVal_lt hdigit
      have htens : InI64 (value * 10) := by
        unfold InI64 i64Min i64Max
        omega
      have hsum : InI64 (value * 10 + digitVal c) := by
        unfold InI64 i64Min i64Max
        omega
      rw [checkedI64_of_in htens, Option.bind_eq_bind, Option.bind_some, checkedI64_of_in hsum,
        Option.bind_some]
      exact ih (by omega) (by omega)
    · rfl

theorem parseRetryAfterSeconds_checked (text : String) :
    parseRetryAfterSecondsChecked text = some (parseRetryAfterSeconds text) := by
  unfold parseRetryAfterSecondsChecked parseRetryAfterSeconds
  cases skipWs text.toList with
  | nil => rfl
  | cons c rest =>
    dsimp only
    split_ifs with hdigit
    · rw [retryDigits_checked (c :: rest) (by decide) (by decide)]
      cases retryDigits 0 (c :: rest) with
      | none => rfl
      | some read => rfl
    · rfl

/-! ## What it accepts -/

/-- Optional ASCII whitespace, digits that stand for `v`, optional ASCII whitespace. -/
def IsDelay (text : String) (v : Int) : Prop :=
  ∃ front digits back : List Char, text.toList = front ++ (digits ++ back) ∧
    isBlank front = true ∧ isBlank back = true ∧ digits ≠ [] ∧
    digits.all isAsciiDigit = true ∧ v = natOfDigits digits

/-- The value of further digits behind `n`. -/
def valueFrom (n : Nat) (digits : List Char) : Nat :=
  digits.foldl (fun n c => n * 10 + digitVal c) n

theorem le_valueFrom (digits : List Char) (n : Nat) : n ≤ valueFrom n digits := by
  induction digits generalizing n with
  | nil => exact le_rfl
  | cons c digits ih => exact (by omega : n ≤ n * 10 + digitVal c).trans (ih _)

/-- The digit loop takes all digits there are, and gives up exactly if they stand for more than
`1000000009`. -/
theorem retryDigits_append {digits rest : List Char} (hdigits : digits.all isAsciiDigit = true)
    (hrest : ∀ c ∈ rest.head?, isAsciiDigit c = false) (n : Nat) :
    retryDigits n (digits ++ rest) =
      if digits = [] ∨ valueFrom n digits ≤ 1000000009 then
        some ((valueFrom n digits : Int), rest)
      else none := by
  induction digits generalizing n with
  | nil =>
    rw [if_pos (Or.inl rfl), List.nil_append]
    cases rest with
    | nil => rfl
    | cons c rest =>
      unfold retryDigits
      rw [if_neg (by rw [hrest c rfl]; decide)]
      rfl
  | cons c digits ih =>
    obtain ⟨hc, hdigits⟩ := Bool.and_eq_true_iff.1 hdigits
    have hd := digitVal_lt hc
    have hle := le_valueFrom digits (n * 10 + digitVal c)
    have hnext := ih hdigits (n * 10 + digitVal c)
    have hvalue : valueFrom n (c :: digits) = valueFrom (n * 10 + digitVal c) digits := rfl
    have hne : ¬ c :: digits = [] := List.cons_ne_nil c digits
    rw [List.cons_append, hvalue]
    unfold retryDigits
    rw [if_pos hc]
    by_cases hlarge : (n : Int) > 100000000
    · rw [if_pos hlarge, if_neg (by rintro (h | h) <;> [exact hne h; omega])]
    · rw [if_neg hlarge]
      push_cast at hnext
      rw [hnext]
      refine if_congr ?_ rfl rfl
      rw [or_iff_right hne]
      cases digits with
      | nil => exact iff_of_true (Or.inl rfl) (show n * 10 + digitVal c ≤ 1000000009 by omega)
      | cons c' digits => exact or_iff_right (List.cons_ne_nil c' digits)

theorem not_digit_of_blank {c : Char} (h : isAsciiWhitespace c = true) :
    isAsciiDigit c = false := by
  unfold isAsciiWhitespace at h
  simp only [Bool.or_eq_true, decide_eq_true_eq] at h
  rcases h with (((rfl | rfl) | rfl) | rfl) | rfl <;> decide

/-- What is read of a text whose digits have been told apart. -/
theorem parseRetryAfterSeconds_append {text : String} {digits back : List Char}
    (htext : skipWs text.toList = digits ++ back) (hdigits : digits.all isAsciiDigit = true)
    (hback : ∀ c ∈ back.head?, isAsciiDigit c = false) :
    parseRetryAfterSeconds text =
      if digits ≠ [] ∧ natOfDigits digits ≤ 1000000009 ∧ skipWs back = [] then
        some (natOfDigits digits : Int)
      else none := by
  have hvalue : valueFrom 0 digits = natOfDigits digits := rfl
  have hloop := retryDigits_append hdigits hback 0
  rw [hvalue] at hloop
  unfold parseRetryAfterSeconds
  rw [htext]
  cases digits with
  | nil =>
    rw [if_neg fun h => h.1 rfl, List.nil_append]
    cases back with
    | nil => rfl
    | cons c back =>
      dsimp only
      rw [if_neg (by rw [hback c rfl]; decide)]
  | cons c digits =>
    have hne : c :: digits ≠ [] := List.cons_ne_nil c digits
    have hc : isAsciiDigit c = true := (Bool.and_eq_true_iff.1 hdigits).1
    rw [List.cons_append] at hloop ⊢
    dsimp only
    rw [if_pos hc, show (0 : Int) = ((0 : Nat) : Int) from rfl, hloop]
    by_cases hsmall : natOfDigits (c :: digits) ≤ 1000000009
    · rw [if_pos (Or.inr hsmall)]
      dsimp only
      refine if_congr ?_ rfl rfl
      exact ⟨fun h => ⟨hne, hsmall, h⟩, fun h => h.2.2⟩
    · rw [if_neg fun h => h.elim hne hsmall, if_neg fun h => hsmall h.2.1]

theorem skipWs_eq_nil_iff {s : List Char} : skipWs s = [] ↔ isBlank s = true := by
  unfold skipWs isBlank
  rw [List.dropWhile_eq_nil_iff, List.all_eq_true]

/-- Exactly the delays of at most `1000000009` seconds are read. -/
theorem parseRetryAfterSeconds_eq_some_iff (text : String) (v : Int) :
    parseRetryAfterSeconds text = some v ↔ IsDelay text v ∧ v ≤ 1000000009 := by
  constructor
  · intro h
    have hbody : skipWs text.toList = (skipWs text.toList).takeWhile isAsciiDigit ++
        (skipWs text.toList).dropWhile isAsciiDigit := List.takeWhile_append_dropWhile.symm
    have hdigits : ((skipWs text.toList).takeWhile isAsciiDigit).all isAsciiDigit = true :=
      List.all_takeWhile
    have hback : ∀ c ∈ ((skipWs text.toList).dropWhile isAsciiDigit).head?,
        isAsciiDigit c = false := by
      intro c hc
      have hhead := List.head?_dropWhile_not isAsciiDigit (skipWs text.toList)
      rw [Option.mem_def.1 hc] at hhead
      exact hhead
    rw [parseRetryAfterSeconds_append hbody hdigits hback] at h
    split_ifs at h with hread
    obtain ⟨hne, hvalue, hblank⟩ := hread
    obtain rfl := Option.some.inj h
    refine ⟨⟨text.toList.takeWhile isAsciiWhitespace, _, _, ?_, List.all_takeWhile,
      skipWs_eq_nil_iff.1 hblank, hne, hdigits, rfl⟩, by exact_mod_cast hvalue⟩
    rw [← hbody]
    exact List.takeWhile_append_dropWhile.symm
  · rintro ⟨⟨front, digits, back, htext, hfront, hback, hne, hdigits, rfl⟩, hv⟩
    obtain ⟨c, tail, rfl⟩ := List.exists_cons_of_ne_nil hne
    have hc : isAsciiDigit c = true := (Bool.and_eq_true_iff.1 hdigits).1
    have hskip : skipWs text.toList = c :: tail ++ back := by
      have hword : ¬ isAsciiWhitespace c = true := by
        intro hws
        rw [not_digit_of_blank hws] at hc
        cases hc
      unfold skipWs
      rw [htext, List.dropWhile_append_of_pos (List.all_eq_true.1 hfront), List.cons_append,
        List.dropWhile_cons_of_neg hword]
    have hhead : ∀ d ∈ back.head?, isAsciiDigit d = false := fun d hd =>
      not_digit_of_blank (List.all_eq_true.1 hback d (List.mem_of_mem_head? hd))
    rw [parseRetryAfterSeconds_append hskip hdigits hhead]
    exact if_pos ⟨hne, by exact_mod_cast hv, skipWs_eq_nil_iff.2 hback⟩

/-! ## `backoff_time_iso` -/

/-- The doubling loop. -/
def doubleWhileChecked (cap : Int) : Nat → Int → Option Int
  | 0, delay => some delay
  | n + 1, delay =>
    if delay < cap then do
      let delay ← checkedI64 (delay * 2)
      doubleWhileChecked cap n delay
    else some delay

/-- The delay of `backoff_time_iso`, before the cap. -/
def backoffDelayChecked (cfg : Config) (attemptCount : Int) (retryAfterS : Option Int) :
    Option Int :=
  match retryAfterS with
  | some secs => checkedI64 (secs * 1000)
  | none => doubleWhileChecked cfg.backoffCapMs attemptCount.toNat cfg.backoffBaseMs

def backoffTimeIsoChecked (cfg : Config) (attemptCount : Int) (retryAfterS : Option Int)
    (wall : Int) : Option String := do
  let delay ← backoffDelayChecked cfg attemptCount retryAfterS
  let time ← checkedI64 (wall + min delay cfg.backoffCapMs)
  return isoUtc time

/-- How long a record waits: the seconds it was told to, or else the base doubled once an
attempt, and never more than the cap. -/
def backoffMs (cfg : Config) (attemptCount : Int) : Option Int → Int
  | some secs => min (1000 * secs) cfg.backoffCapMs
  | none => min (cfg.backoffBaseMs * 2 ^ attemptCount.toNat) cfg.backoffCapMs

/-- Below a cap of `2 ^ 40` the loop overflows nowhere and its early stop changes nothing. -/
theorem doubleWhile_checked {cap delay : Int} (hpos : 0 < delay) (hdelay : delay ≤ 2 * cap)
    (hcap : cap ≤ 2 ^ 40) (n : Nat) : ∃ delay', doubleWhileChecked cap n delay = some delay' ∧
      doubleWhile cap n delay = delay' ∧ min delay' cap = min (delay * 2 ^ n) cap := by
  induction n generalizing delay with
  | zero => exact ⟨delay, rfl, rfl, by rw [pow_zero, mul_one]⟩
  | succ n ih =>
    unfold doubleWhileChecked doubleWhile
    split_ifs with hlt
    · have hin : InI64 (delay * 2) := by
        unfold InI64 i64Min i64Max
        omega
      rw [checkedI64_of_in hin, pow_succ', ← mul_assoc]
      exact ih (by omega) (by omega)
    · have hgrow : delay ≤ delay * 2 ^ (n + 1) :=
        le_mul_of_one_le_right hpos.le (one_le_pow₀ (by decide))
      exact ⟨delay, rfl, rfl, by rw [min_eq_right (by omega), min_eq_right (by omega)]⟩

section

variable {cfg : Config} (hbase : 0 < cfg.backoffBaseMs)
  (hcap : cfg.backoffBaseMs ≤ cfg.backoffCapMs) (hlimit : cfg.backoffCapMs ≤ 2 ^ 40)

include hbase

theorem backoffMs_mono {attemptCount attemptCount' : Int} (h : attemptCount ≤ attemptCount')
    (retryAfterS : Option Int) :
    backoffMs cfg attemptCount retryAfterS ≤ backoffMs cfg attemptCount' retryAfterS := by
  cases retryAfterS with
  | some secs => exact le_rfl
  | none =>
    have hpow : (2 : Int) ^ attemptCount.toNat ≤ 2 ^ attemptCount'.toNat :=
      pow_le_pow_right₀ (by decide) (Int.toNat_le_toNat h)
    exact min_le_min_right _ (Int.mul_le_mul_of_nonneg_left hpow hbase.le)

include hcap

theorem backoffMs_nonneg (attemptCount : Int) {retryAfterS : Option Int}
    (hsecs : ∀ secs ∈ retryAfterS, 0 ≤ secs) : 0 ≤ backoffMs cfg attemptCount retryAfterS := by
  cases retryAfterS with
  | some secs =>
    have := hsecs secs rfl
    exact le_min (by omega) (by omega)
  | none => exact le_min (by positivity) (by omega)

include hlimit

/-- No step overflows, and the delay is as long as `backoffMs` says. -/
theorem backoffDelay_checked (attemptCount : Int) {retryAfterS : Option Int}
    (hsecs : ∀ secs ∈ retryAfterS, 0 ≤ secs ∧ secs ≤ 1000000009) :
    ∃ delay, backoffDelayChecked cfg attemptCount retryAfterS = some delay ∧
      min delay cfg.backoffCapMs = backoffMs cfg attemptCount retryAfterS ∧
      ∀ wall, backoffTimeIso cfg attemptCount retryAfterS wall =
        isoUtc (wall + min delay cfg.backoffCapMs) := by
  cases retryAfterS with
  | some secs =>
    obtain ⟨hlow, hhigh⟩ := hsecs secs rfl
    have hin : InI64 (secs * 1000) := by
      unfold InI64 i64Min i64Max
      omega
    refine ⟨secs * 1000, checkedI64_of_in hin, ?_, fun _ => rfl⟩
    unfold backoffMs
    rw [mul_comm]
  | none =>
    obtain ⟨delay, hchecked, hloop, hmin⟩ :=
      doubleWhile_checked hbase (by omega) hlimit attemptCount.toNat
    refine ⟨delay, hchecked, hmin, fun wall => ?_⟩
    unfold backoffTimeIso
    rw [hloop]

end

/-- The backoff is bounded and monotone, and no `i64` step of it overflows, for every number of
attempts and every `Retry-After`; of these exactly the delays of at most `1000000009` seconds
are read. -/
theorem backoff_bounded :
    (∀ cfg : Config, 0 < cfg.backoffBaseMs → cfg.backoffBaseMs ≤ cfg.backoffCapMs →
      cfg.backoffCapMs ≤ 2 ^ 40 → ∀ (attemptCount : Int) (header : Option String),
      let retryAfterS := header.bind parseRetryAfterSeconds
      let delay := backoffMs cfg attemptCount retryAfterS
      (∃ uncapped, backoffDelayChecked cfg attemptCount retryAfterS = some uncapped ∧
        min uncapped cfg.backoffCapMs = delay) ∧
      (0 ≤ delay ∧ delay ≤ cfg.backoffCapMs) ∧
      (∀ attemptCount', attemptCount ≤ attemptCount' →
        delay ≤ backoffMs cfg attemptCount' retryAfterS) ∧
      ∀ wall, InI64 wall → wall ≤ i64Max - cfg.backoffCapMs →
        backoffTimeIsoChecked cfg attemptCount retryAfterS wall = some (isoUtc (wall + delay)) ∧
        backoffTimeIso cfg attemptCount retryAfterS wall = isoUtc (wall + delay)) ∧
    ∀ text, parseRetryAfterSecondsChecked text = some (parseRetryAfterSeconds text) ∧
      ∀ v, parseRetryAfterSeconds text = some v ↔ IsDelay text v ∧ v ≤ 1000000009 := by
  refine ⟨?_, fun text =>
    ⟨parseRetryAfterSeconds_checked text, parseRetryAfterSeconds_eq_some_iff text⟩⟩
  intro cfg hbase hcap hlimit attemptCount header retryAfterS delay
  have hsecs : ∀ secs ∈ retryAfterS, 0 ≤ secs ∧ secs ≤ 1000000009 := by
    intro secs hmem
    obtain ⟨text, -, hread⟩ := Option.bind_eq_some_iff.1 hmem
    obtain ⟨⟨-, digits, -, -, -, -, -, -, rfl⟩, hhigh⟩ :=
      (parseRetryAfterSeconds_eq_some_iff text secs).1 hread
    exact ⟨Int.natCast_nonneg _, hhigh⟩
  have hnonneg : 0 ≤ delay :=
    backoffMs_nonneg hbase hcap attemptCount fun secs hmem => (hsecs secs hmem).1
  obtain ⟨uncapped, hchecked, hmin, hiso⟩ :=
    backoffDelay_checked hbase hcap hlimit attemptCount hsecs
  have hle : delay ≤ cfg.backoffCapMs := hmin.symm.trans_le (min_le_right _ _)
  refine ⟨⟨uncapped, hchecked, hmin⟩, ⟨hnonneg, hle⟩, fun attemptCount' h =>
    backoffMs_mono hbase h retryAfterS, fun wall hwall hfits => ?_⟩
  have hin : InI64 (wall + delay) := ⟨hwall.1.trans (by omega), by omega⟩
  constructor
  · unfold backoffTimeIsoChecked
    rw [hchecked, Option.bind_eq_bind, Option.bind_some, hmin, checkedI64_of_in hin]
    rfl
  · rw [hiso, hmin]

/-- At the cap after eight attempts, and two minutes when the server asks for them. -/
theorem backoff_bounded_default :
    (∃ uncapped, backoffDelayChecked .default 8 none = some uncapped ∧
      min uncapped 300000 = 300000) ∧
    parseRetryAfterSeconds " 120\t" = some 120 :=
  ⟨(backoff_bounded.1 .default (by decide) (by decide) (by decide) 8 none).1, by decide⟩

end TreeMiner
