import Mathlib.Data.List.Forall2
import Mathlib.Data.String.Basic
import TreeMiner.Core.Value
import TreeMiner.Lib.JsonUnique

/-! `serde_json::from_str` and the float texts of `std`, as parameters with the laws
the crates rely on. -/

namespace TreeMiner

open Lib Lib.Json

/-- `Value::as_object` -/
def Value.asObject : Value → Option (List (String × Value))
  | .object m => some m
  | _ => none

/-- `Value::is_array` -/
def Value.isArray : Value → Bool
  | .array _ => true
  | _ => false

/-- The map of an object's members in text order: a repeated name keeps its last value. -/
def Value.ofMembers (kvs : List (String × Value)) : Value :=
  kvs.foldl (fun v kv => v.insert kv.1 kv.2) (.object [])

/-- The characters of a string; `none` where a surrogate stands alone. -/
def decodeString : List Piece → Option (List Char)
  | [] => some []
  | .plain c :: ps => (decodeString ps).map (c :: ·)
  | .unit n :: ps =>
    if 0xd800 ≤ n ∧ n ≤ 0xdbff then
      match ps with
      | .unit m :: ps =>
        if 0xdc00 ≤ m ∧ m ≤ 0xdfff then
          (decodeString ps).map (Char.ofNat (0x10000 + (n - 0xd800) * 0x400 + (m - 0xdc00)) :: ·)
        else none
      | _ => none
    else if 0xdc00 ≤ n ∧ n ≤ 0xdfff then none
    else (decodeString ps).map (Char.ofNat n :: ·)

structure Codec where
  /-- `serde_json::from_str::<Value>` -/
  fromStr : String → Option Value
  /-- the `Number` it makes of a number's text, `none` out of range -/
  number : List Char → Option Number
  /-- `Number::to_string` of a float -/
  floatText : F64 → String
  /-- the format `{:?}` of an `f64` -/
  debugF64 : F64 → String
  /-- `text.parse::<f64>()` -/
  parseF64 : String → Option F64

namespace Codec

variable (C : Codec)

/-- `Number::to_string` -/
def numberText : Number → String
  | .int n => toString n
  | .float x => C.floatText x

def scalar : Json → Option Value
  | .null => some .null
  | .bool b => some (.bool b)
  | .number t => (C.number t).map .number
  | .string p => (decodeString p).map fun cs => .string (String.ofList cs)
  | .array _ | .object _ => none

/-- A member with a scalar value, as it is read. -/
def Reads (m : List Piece × Json) (kv : String × Value) : Prop :=
  decodeString m.1 = some kv.1.toList ∧ C.scalar m.2 = some kv.2

/-- What the crates rely on. -/
structure Lawful : Prop where
  /-- nothing but JSON is read -/
  sound : ∀ {text : String} {v : Value}, C.fromStr text = some v → ∃ j, Text text.toList j
  /-- an object of scalars is read member by member -/
  flat : ∀ {text : String} {ms : List (List Piece × Json)} {kvs : List (String × Value)},
    Text text.toList (.object ms) → List.Forall₂ C.Reads ms kvs →
    C.fromStr text = some (Value.ofMembers kvs)
  /-- an integer up to `u64::MAX` stays one -/
  number_nat : ∀ n ≤ u64Max, C.number (Nat.repr n).toList = some (.int n)
  /-- `{:?}` of a finite float is a JSON number -/
  debug_number : ∀ x : F64, x.isFinite = true → Json.Number (C.debugF64 x).toList
  /-- the decimal text of a finite float comes back to it -/
  debug_parse : ∀ x : F64, x.isFinite = true → ∃ n, C.number (C.debugF64 x).toList = some n ∧
    C.parseF64 (C.numberText n) = some x

end Codec

/-! ## The map of an object -/

namespace Value

theorem lookup_filter (q : String → Bool) (m : List (String × Value)) (k : String) :
    (m.filter fun p => q p.1).lookup k = if q k then m.lookup k else none := by
  induction m with
  | nil => simp
  | cons p m ih =>
    obtain ⟨a, v⟩ := p
    by_cases hk : k = a
    · subst hk
      by_cases hq : q k = true
      · simp [hq]
      · simp [hq, ih]
    · have hne : (k == a) = false := by simpa using hk
      by_cases hq : q a = true
      · simp [hq, List.lookup_cons, hne, ih]
      · simp [hq, List.lookup_cons, hne, ih]

theorem get_insert (m : List (String × Value)) (key k : String) (x : Value) :
    ((Value.object m).insert key x).get k = if k = key then some x else (Value.object m).get k := by
  unfold insert get
  dsimp only
  rw [List.lookup_append, lookup_filter (fun a => decide (a < key)), List.lookup_cons,
    lookup_filter (fun a => decide (key < a))]
  rcases lt_trichotomy k key with h | rfl | h
  · have hne : k ≠ key := ne_of_lt h
    have hnot : ¬ key < k := not_lt_of_gt h
    simp [h, hne, hnot, beq_false_of_ne hne]
  · simp
  · have hne : k ≠ key := ne_of_gt h
    have hnot : ¬ k < key := not_lt_of_gt h
    simp [h, hne, hnot, beq_false_of_ne hne]

/-- Later members of another name leave a value alone; a member read last is found. -/
theorem get_foldl_insert (kvs m : List (String × Value)) (hkeys : (kvs.map Prod.fst).Nodup) :
    ∃ m', kvs.foldl (fun (v : Value) kv => v.insert kv.1 kv.2) (.object m) = .object m' ∧
      (∀ kv ∈ kvs, m'.lookup kv.1 = some kv.2) ∧
      (∀ k, k ∉ kvs.map Prod.fst → m'.lookup k = m.lookup k) ∧ ∀ x ∈ m', x ∈ kvs ∨ x ∈ m := by
  induction kvs generalizing m with
  | nil => exact ⟨m, rfl, by simp, by simp, by simp⟩
  | cons kv kvs ih =>
    rw [List.map_cons, List.nodup_cons] at hkeys
    obtain ⟨m', hfold, hin, hout, hsub⟩ := ih (m.filter (fun p => decide (p.1 < kv.1)) ++
      (kv.1, kv.2) :: m.filter fun p => decide (kv.1 < p.1)) hkeys.2
    have hget := fun k => get_insert m kv.1 k kv.2
    refine ⟨m', hfold, ?_, ?_, ?_⟩
    · intro x hx
      rcases List.mem_cons.1 hx with rfl | hx
      · exact (hout _ hkeys.1).trans ((hget x.1).trans (if_pos rfl))
      · exact hin x hx
    · intro k hk
      rw [List.map_cons, List.mem_cons, not_or] at hk
      exact (hout k hk.2).trans ((hget k).trans (if_neg hk.1))
    · intro x hx
      rcases hsub x hx with h | h
      · exact Or.inl (List.mem_cons_of_mem _ h)
      · simp only [List.mem_append, List.mem_cons, List.mem_filter] at h
        rcases h with h | rfl | h
        · exact Or.inr h.1
        · exact Or.inl List.mem_cons_self
        · exact Or.inr h.1

/-- Members of different names are all found, and nothing else is there. -/
theorem ofMembers_object (kvs : List (String × Value)) (hkeys : (kvs.map Prod.fst).Nodup) :
    ∃ m, ofMembers kvs = .object m ∧ (∀ kv ∈ kvs, m.lookup kv.1 = some kv.2) ∧
      ∀ x ∈ m, x ∈ kvs := by
  obtain ⟨m, hfold, hin, -, hsub⟩ := get_foldl_insert kvs [] hkeys
  refine ⟨m, hfold, hin, fun x hx => ?_⟩
  rcases hsub x hx with h | h
  · exact h
  · cases h

end Value

/-! ## Decimal texts -/

theorem head_toDigits {n : Nat} (h : n ≠ 0) : (Nat.toDigits 10 n).head? ≠ some '0' := by
  induction n using Nat.strong_induction_on with
  | _ n ih =>
    rcases Nat.lt_or_ge n 10 with hlt | hge
    · rw [Nat.toDigits_of_lt_base hlt]
      simpa using h
    · rw [Nat.toDigits_of_base_le (by decide) hge,
        List.head?_append_of_ne_nil _ Nat.toDigits_ne_nil]
      exact ih (n / 10) (by omega) (by omega)

theorem digits_toDigits (n : Nat) : Digits (Nat.toDigits 10 n) :=
  ⟨Nat.toDigits_ne_nil, fun _ hc => isAsciiDigit_of_mem_toDigits hc⟩

/-- The digits of a natural number with a fraction or an exponent behind them. -/
theorem number_toDigits (n : Nat) {frac exp : List Char}
    (hfrac : frac = [] ∨ ∃ ds, frac = '.' :: ds ∧ Digits ds)
    (hexp : exp = [] ∨ ∃ e sign ds, exp = e :: (sign ++ ds) ∧ (e = 'e' ∨ e = 'E') ∧
      (sign = [] ∨ sign = ['+'] ∨ sign = ['-']) ∧ Digits ds) :
    Json.Number (Nat.toDigits 10 n ++ frac ++ exp) := by
  refine ⟨[], Nat.toDigits 10 n, frac, exp, rfl, Or.inl rfl, ?_, hfrac, hexp⟩
  rcases Nat.eq_zero_or_pos n with rfl | hn
  · exact Or.inl (Nat.toDigits_zero 10)
  · exact Or.inr ⟨digits_toDigits n, head_toDigits (by omega)⟩

theorem number_repr (n : Nat) : Json.Number (Nat.repr n).toList := by
  have h := number_toDigits n (Or.inl rfl) (Or.inl rfl)
  rwa [List.append_nil, List.append_nil, ← Nat.toList_repr] at h

/-! ## A codec with these laws -/

namespace Codec

variable {C : Codec}

theorem forall₂_reads_unique {ms : List (List Piece × Json)} {kvs kvs' : List (String × Value)}
    (h : List.Forall₂ C.Reads ms kvs) (h' : List.Forall₂ C.Reads ms kvs') : kvs = kvs' := by
  induction h generalizing kvs' with
  | nil =>
    cases h'
    rfl
  | @cons m kv ms kvs hr _ ih =>
    cases h' with
    | @cons _ kv' _ _ hr' h' =>
      have hkey := hr.1.symm.trans hr'.1
      have hval := hr.2.symm.trans hr'.2
      rw [Option.some_inj, String.toList_inj] at hkey
      rw [Option.some_inj] at hval
      rw [ih h', Prod.ext hkey hval]

/-- Zero is `0.0`; any other float is written by its bits, with an exponent. -/
def sampleText (x : F64) : List Char :=
  if x.bits = 0 then ['0', '.', '0'] else Nat.toDigits 10 x.bits.toNat ++ ['e', '0']

def sampleFloat (text : List Char) : F64 :=
  if text = ['0', '.', '0'] then ⟨0⟩
  else ⟨UInt64.ofNat (natOfDigits (text.takeWhile isAsciiDigit))⟩

def sampleNumbers : Codec where
  fromStr _ := none
  number text :=
    if text.all isAsciiDigit then some (.int (natOfDigits text))
    else some (.float (sampleFloat text))
  floatText x := String.ofList (sampleText x)
  debugF64 x := String.ofList (sampleText x)
  parseF64 text := some (sampleFloat text.toList)

/-- An object of scalars and what it is read as. -/
def ReadsText (C : Codec) (text : String) (v : Value) : Prop :=
  ∃ ms kvs, Text text.toList (.object ms) ∧ List.Forall₂ C.Reads ms kvs ∧ v = Value.ofMembers kvs

open Classical in
/-- The reader whose graph is `ReadsText`. -/
noncomputable def sample : Codec :=
  { sampleNumbers with
    fromStr := fun text => if h : ∃ v, sampleNumbers.ReadsText text v then some h.choose else none }

open Classical in
theorem sample_fromStr (text : String) : sample.fromStr text =
    if h : ∃ v, sampleNumbers.ReadsText text v then some h.choose else none := rfl

theorem sampleFloat_sampleText (x : F64) : sampleFloat (sampleText x) = x := by
  unfold sampleText
  split_ifs with hx
  · cases x
    cases hx
    rfl
  · have hdigits : (Nat.toDigits 10 x.bits.toNat ++ ['e', '0']).takeWhile isAsciiDigit =
        Nat.toDigits 10 x.bits.toNat := by
      rw [List.takeWhile_append_of_pos fun c hc => isAsciiDigit_of_mem_toDigits hc]
      simp [show isAsciiDigit 'e' = false from by decide]
    have hne : Nat.toDigits 10 x.bits.toNat ++ ['e', '0'] ≠ ['0', '.', '0'] := by
      intro h
      have he : 'e' ∈ ['0', '.', '0'] := by
        rw [← h]
        simp
      exact absurd he (by decide)
    unfold sampleFloat
    rw [if_neg hne, hdigits, natOfDigits_toDigits]
    simp

theorem sampleText_not_digits (x : F64) : (sampleText x).all isAsciiDigit = false := by
  unfold sampleText
  split_ifs with hx
  · decide
  · rw [List.all_append, show ['e', '0'].all isAsciiDigit = false from by decide, Bool.and_false]

theorem sampleText_number (x : F64) : Json.Number (sampleText x) := by
  unfold sampleText
  split_ifs with hx
  · exact number_toDigits 0 (Or.inr ⟨['0'], rfl, digits_toDigits 0⟩) (Or.inl rfl)
  · have := number_toDigits x.bits.toNat (Or.inl rfl)
      (Or.inr ⟨'e', [], ['0'], rfl, Or.inl rfl, Or.inl rfl, digits_toDigits 0⟩)
    rwa [List.append_nil] at this

theorem sample_lawful : sample.Lawful where
  sound := by
    intro text v h
    rw [sample_fromStr] at h
    split_ifs at h with hv
    obtain ⟨ms, -, htext, -⟩ := hv.choose_spec
    exact ⟨_, htext⟩
  flat := by
    intro text ms kvs htext hreads
    have hv : ∃ v, sampleNumbers.ReadsText text v := ⟨_, ms, kvs, htext, hreads, rfl⟩
    rw [sample_fromStr, dif_pos hv]
    obtain ⟨ms', kvs', htext', hreads', heq⟩ := hv.choose_spec
    cases text_unique htext htext'
    rw [heq, forall₂_reads_unique hreads hreads']
  number_nat := by
    intro n _
    have hall : (Nat.repr n).toList.all isAsciiDigit = true := by
      rw [Nat.toList_repr, List.all_eq_true]
      exact fun c hc => isAsciiDigit_of_mem_toDigits hc
    change (if _ then _ else _) = _
    rw [if_pos hall, Nat.toList_repr, natOfDigits_toDigits]
  debug_number := by
    intro x _
    change Json.Number (String.ofList (sampleText x)).toList
    rw [String.toList_ofList]
    exact sampleText_number x
  debug_parse := by
    intro x _
    refine ⟨.float x, ?_, ?_⟩
    · change (if _ then _ else _) = _
      rw [show (sample.debugF64 x).toList = sampleText x from String.toList_ofList,
        if_neg (by rw [sampleText_not_digits]; exact Bool.false_ne_true), sampleFloat_sampleText]
    · change some (sampleFloat (String.ofList (sampleText x)).toList) = _
      rw [String.toList_ofList, sampleFloat_sampleText]

end Codec

end TreeMiner
