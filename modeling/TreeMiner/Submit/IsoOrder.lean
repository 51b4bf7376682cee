import TreeMiner.Journal.Fetch
import TreeMiner.Submit.CivilTime

/-! The order of the journal's timestamps. Up to the year 9999 the texts of `iso_utc` are
fields of one width, so that they compare as the seconds they stand for. -/

namespace TreeMiner
open Lib

theorem zeroPad_eq {w : Nat} {n : Int} (h0 : 0 ≤ n) (h : n.toNat < 10 ^ (w + 1)) :
    zeroPad (w + 1) n = decimal (w + 1) n := by
  have habs : n.natAbs = n.toNat := by omega
  have hsign : ¬ n < 0 := not_lt.2 h0
  unfold zeroPad decimal
  simp only [habs, hsign, if_false, List.length_nil, Nat.sub_zero, List.nil_append,
    Nat.toString_eq_repr, Nat.toList_repr, replicate_append_toDigits h]

/-- The text of a second. -/
def stamp (s : Int) : String :=
  let a := civilDate (s / 86400)
  decimal 4 a.year ++ "-" ++ decimal 2 a.month ++ "-" ++ decimal 2 a.day ++ "T" ++
    clockText (s % 86400) ++ "Z"

/-- The UTC year of an instant lies in 0 to 9999. -/
def FourDigitYear (ms : Int) : Prop :=
  0 ≤ (civilDate (ms / 86400000)).year ∧ (civilDate (ms / 86400000)).year ≤ 9999

instance (ms : Int) : Decidable (FourDigitYear ms) := inferInstanceAs (Decidable (_ ∧ _))

/-- The clock of an instant is the clock of its second. -/
theorem clock_fields (ms : Int) :
    let rem := ms - ms / 86400000 * 86400000
    rem.tdiv 3600000 = ms / 1000 % 86400 / 3600 ∧
      (rem.tmod 3600000).tdiv 60000 = ms / 1000 % 86400 % 3600 / 60 ∧
      ((rem.tmod 3600000).tmod 60000).tdiv 1000 = ms / 1000 % 86400 % 60 := by
  intro rem
  have hrem : 0 ≤ rem := by omega
  rw [Int.tdiv_eq_ediv_of_nonneg hrem, Int.tmod_eq_emod_of_nonneg hrem,
    Int.tdiv_eq_ediv_of_nonneg (by omega), Int.tmod_eq_emod_of_nonneg (by omega),
    Int.tdiv_eq_ediv_of_nonneg (by omega)]
  omega

/-- `iso_utc` writes the second of its instant, rounded down. -/
theorem isoUtc_eq {ms : Int} (h : FourDigitYear ms) : isoUtc ms = stamp (ms / 1000) := by
  obtain ⟨hy, hy'⟩ := h
  have hdays : floorDiv ms 86400000 = ms / 86400000 := floorDiv_eq ms (by decide)
  have hsecond : ms / 1000 / 86400 = ms / 86400000 := by omega
  have hm := (civilDate (ms / 86400000)).month_pos
  have hm' := (civilDate (ms / 86400000)).month_le
  have hd := (civilDate (ms / 86400000)).day_pos
  have hd' := (civilDate (ms / 86400000)).day_le.trans (monthLength_le _ _)
  have hcivil : civilFromDays (ms / 86400000) = ((civilDate (ms / 86400000)).year,
    (civilDate (ms / 86400000)).month, (civilDate (ms / 86400000)).day) := rfl
  obtain ⟨hh, hmi, hs⟩ := clock_fields ms
  unfold isoUtc stamp clockText
  simp only [hdays, hcivil, hsecond]
  generalize civilDate (ms / 86400000) = a at *
  rw [hh, hmi, hs, zeroPad_eq hy (by omega), zeroPad_eq (w := 1) (by omega) (by omega),
    zeroPad_eq (w := 1) (by omega) (by omega), zeroPad_eq (w := 1) (by omega) (by omega),
    zeroPad_eq (w := 1) (by omega) (by omega), zeroPad_eq (w := 1) (by omega) (by omega)]
  simp only [String.append_assoc]

theorem clock_lt_iff {t u : Int} (ht : 0 ≤ t) (hu : 0 ≤ u) :
    (t / 3600).toNat < (u / 3600).toNat ∨ (t / 3600).toNat = (u / 3600).toNat ∧
        ((t % 3600 / 60).toNat < (u % 3600 / 60).toNat ∨
          (t % 3600 / 60).toNat = (u % 3600 / 60).toNat ∧ (t % 60).toNat < (u % 60).toNat) ↔
      t < u := by
  omega

theorem stamp_toList (s : Int) :
    (stamp s).toList = digits 4 (civilDate (s / 86400)).year.toNat ++ '-' ::
      (digits 2 (civilDate (s / 86400)).month.toNat ++ '-' ::
        (digits 2 (civilDate (s / 86400)).day.toNat ++ 'T' ::
          (digits 2 (s % 86400 / 3600).toNat ++ ':' ::
            (digits 2 (s % 86400 % 3600 / 60).toNat ++ ':' ::
              (digits 2 (s % 86400 % 60).toNat ++ 'Z' :: []))))) := by
  simp [stamp, clockText, decimal]

/-- Earlier on the calendar and the clock. -/
theorem before_iff_number {a b : Date} {t u : Int} (ht : 0 ≤ t) (ht' : t < 86400) (hu : 0 ≤ u)
    (hu' : u < 86400) :
    a.Before b ∨ a = b ∧ t < u ↔ a.number * 86400 + t < b.number * 86400 + u := by
  have hlt := @Date.number_lt_iff a b
  have heq : a = b ↔ a.number = b.number :=
    ⟨fun h => by rw [h], fun h => Date.number_injective h⟩
  rw [← hlt, heq]
  omega

/-- Seconds of four-digit years compare as texts. -/
theorem stamp_lt_iff {s u : Int}
    (hs : 0 ≤ (civilDate (s / 86400)).year ∧ (civilDate (s / 86400)).year ≤ 9999)
    (hu : 0 ≤ (civilDate (u / 86400)).year ∧ (civilDate (u / 86400)).year ≤ 9999) :
    stamp s < stamp u ↔ s < u := by
  have horder := @before_iff_number (civilDate (s / 86400)) (civilDate (u / 86400)) (s % 86400)
    (u % 86400) (by omega) (by omega) (by omega) (by omega)
  simp only [civilDate_number, Int.ediv_mul_add_emod] at horder
  rw [← horder]
  change (stamp s).toList < (stamp u).toList ↔ _
  have ha := (civilDate (s / 86400)).month_pos
  have ha1 := (civilDate (s / 86400)).month_le
  have ha2 := (civilDate (s / 86400)).day_pos
  have ha3 := (civilDate (s / 86400)).day_le.trans (monthLength_le _ _)
  have hb := (civilDate (u / 86400)).month_pos
  have hb1 := (civilDate (u / 86400)).month_le
  have hb2 := (civilDate (u / 86400)).day_pos
  have hb3 := (civilDate (u / 86400)).day_le.trans (monthLength_le _ _)
  rw [stamp_toList, stamp_toList, field_lt_iff (by omega) (by omega),
    field_lt_iff (by omega) (by omega), field_lt_iff (by omega) (by omega),
    field_lt_iff (by omega) (by omega), field_lt_iff (by omega) (by omega),
    field_lt_iff (by omega) (by omega)]
  simp only [List.not_lt_nil, and_false, or_false]
  rw [clock_lt_iff (by omega) (by omega), Date.Before, Date.ext_iff]
  omega

theorem fourDigitYear_second {ms : Int} (h : FourDigitYear ms) :
    0 ≤ (civilDate (ms / 1000 / 86400)).year ∧ (civilDate (ms / 1000 / 86400)).year ≤ 9999 := by
  rw [show ms / 1000 / 86400 = ms / 86400000 by omega]
  exact h

theorem isoUtc_lt_iff {a b : Int} (ha : FourDigitYear a) (hb : FourDigitYear b) :
    isoUtc a < isoUtc b ↔ a / 1000 < b / 1000 := by
  rw [isoUtc_eq ha, isoUtc_eq hb]
  exact stamp_lt_iff (fourDigitYear_second ha) (fourDigitYear_second hb)

theorem isoUtc_eq_iff {a b : Int} (ha : FourDigitYear a) (hb : FourDigitYear b) :
    isoUtc a = isoUtc b ↔ a / 1000 = b / 1000 := by
  constructor
  · intro h
    have hab := (isoUtc_lt_iff ha hb).not.1 (by rw [h]; exact String.lt_irrefl _)
    have hba := (isoUtc_lt_iff hb ha).not.1 (by rw [h]; exact String.lt_irrefl _)
    omega
  · intro h
    rw [isoUtc_eq ha, isoUtc_eq hb, h]

theorem due_isoUtc {status : FindStatus} {kind : Option FindKind} {r : FindRecord} {at' now : Int}
    (ha : FourDigitYear at') (hn : FourDigitYear now) (hs : r.status = status)
    (hk : ∀ k ∈ kind, r.payload.kind = k) (hat : r.nextAttemptAt = some (isoUtc at')) :
    Finds.due status kind (isoUtc now) r = true ↔ at' / 1000 ≤ now / 1000 := by
  have hdue : Finds.due status kind (isoUtc now) r = decide (isoUtc at' ≤ isoUtc now) := by
    unfold Finds.due
    cases kind with
    | none => simp [hs, hat]
    | some k => simp [hs, hat, hk k rfl]
  rw [hdue, decide_eq_true_eq, ← not_lt (a := now / 1000), ← isoUtc_lt_iff hn ha]
  exact String.not_lt.symm

/-- Timestamps compare as the seconds of their instants, in the fetch too: a row is due from
the second of its `next_attempt_at` on, and fetched when fewer due rows than the limit stand
before it. -/
theorem timestamps_compare_as_instants :
    (∀ a b : Int, FourDigitYear a → FourDigitYear b →
      (isoUtc a < isoUtc b ↔ a / 1000 < b / 1000) ∧ (isoUtc a = isoUtc b ↔ a / 1000 = b / 1000)) ∧
    ∀ (t : Finds) (status : FindStatus) (kind : Option FindKind) (limit : Nat) (r : FindRecord)
      (at' now : Int), FourDigitYear at' → FourDigitYear now → r ∈ t.rows → r.status = status →
      (∀ k ∈ kind, r.payload.kind = k) → r.nextAttemptAt = some (isoUtc at') →
      (r ∈ t.fetchByStatus status kind (isoUtc now) limit ↔
        at' / 1000 ≤ now / 1000 ∧
          (t.rows.filter fun q => Finds.due status kind (isoUtc now) q &&
            decide (q.id < r.id)).length < limit) := by
  refine ⟨fun a b ha hb => ⟨isoUtc_lt_iff ha hb, isoUtc_eq_iff ha hb⟩, ?_⟩
  intro t status kind limit r at' now ha hn hr hs hk hat
  rw [Finds.mem_fetchByStatus_iff, due_isoUtc ha hn hs hk hat]
  tauto

/-- A pending row to be retried at an instant. -/
def retryRow (at' : Int) : FindRecord :=
  Finds.attempted ⟨.pending, none, false, ""⟩ none "" (some (isoUtc at')) ""
    (Finds.empty.newRecord ⟨"key", "hash", "account", .xen11, 8, "worker", 1, ⟨0⟩, ""⟩)

/-- The last second of 1969 comes before 1970; a retry later in the same second is due. -/
theorem timestamps_compare_as_instants_retry :
    isoUtc (-1) < isoUtc 0 ∧
      retryRow 5999 ∈ (⟨[retryRow 5999], List.pairwise_singleton _ _,
        List.pairwise_singleton _ _⟩ : Finds).fetchByStatus .pending none (isoUtc 5000) 1 := by
  obtain ⟨horder, hfetch⟩ := timestamps_compare_as_instants
  refine ⟨(horder (-1) 0 (by decide) (by decide)).1.2 (by decide), ?_⟩
  exact (hfetch _ _ _ _ _ 5999 5000 (by decide) (by decide) (by simp) rfl
    (by simp) rfl).2 ⟨by decide, by simp⟩

end TreeMiner
