import TreeMiner.Lib.JsonUnique
import TreeMiner.Submit.Classifier

/-! The JSON scanner on well-formed JSON: it reads the first member of a name, and brackets
inside strings or nested values do not mislead it. -/

namespace TreeMiner

open Lib Lib.Json

/-- What the scanner makes of a character of a string. -/
def shown : Piece → Char
  | .plain c => c
  | .unit n => decodeUnit n

/-! ## Whitespace and strings -/

theorem isAsciiWhitespace_of_isWs {c : Char} (h : isWs c = true) : isAsciiWhitespace c = true := by
  unfold isWs at h
  unfold isAsciiWhitespace
  simp only [Bool.or_eq_true, decide_eq_true_eq] at h ⊢
  tauto

theorem skipWs_of_ws {s r : List Char} (h : Ws s r) : skipWs s = skipWs r := by
  obtain ⟨w, rfl, hw⟩ := h
  unfold skipWs
  induction w with
  | nil => rfl
  | cons c w ih =>
    have hc := isAsciiWhitespace_of_isWs (hw c List.mem_cons_self)
    rw [List.cons_append, List.dropWhile_cons_of_pos hc]
    exact ih fun d hd => hw d (List.mem_cons_of_mem _ hd)

theorem skipWs_cons {c : Char} (hc : isAsciiWhitespace c = false) (s : List Char) :
    skipWs (c :: s) = c :: s := by
  unfold skipWs
  rw [List.dropWhile_cons_of_neg]
  simp [hc]

theorem unescape_of_escapeUnit {c : Char} {n : Nat} (h : escapeUnit c = some n) :
    c ≠ 'u' ∧ unescape c = some (decodeUnit n) := by
  unfold escapeUnit at h
  split_ifs at h with h1 h2 h3 h4 h5 h6 h7 h8 <;> cases h <;> subst_vars <;>
    exact ⟨by decide, by decide⟩

theorem hex4_of_hexValue {a b c d : Char} {i j k l : Nat} (ha : hexValue a = some i)
    (hb : hexValue b = some j) (hc : hexValue c = some k) (hd : hexValue d = some l) :
    hex4 a b c d = some (((i * 16 + j) * 16 + k) * 16 + l) := by
  have hdigit : toDigit16 = hexValue := rfl
  unfold hex4
  rw [hdigit, ha, hb, hc, hd]
  rfl

theorem stringBody_of_strBody {s r : List Char} {p : List Piece} (h : StrBody s p r) :
    stringBody s = some (p.map shown, r) := by
  induction h with
  | close rest => unfold stringBody; simp
  | plain hc hq hb _ ih =>
    unfold stringBody
    simp [hq, hb, ih, shown]
  | escape hn _ ih =>
    obtain ⟨hu, he⟩ := unescape_of_escapeUnit hn
    unfold stringBody
    simp [hu, he, ih, shown]
  | unicode ha hb hc hd _ ih =>
    unfold stringBody
    simp [hex4_of_hexValue ha hb hc hd, ih, shown]

theorem length_lt_of_strBody {s r : List Char} {p : List Piece} (h : StrBody s p r) :
    r.length < s.length := by
  induction h <;> simp <;> omega

/-! ## Bare tokens -/

/-- A character of a number or literal. -/
def isToken (c : Char) : Bool := !endsBare c && c ≠ '"' && c ≠ '{' && c ≠ '['

theorem isToken_of_isDigit {c : Char} (h : isDigit c = true) : isToken c = true := by
  unfold isDigit at h
  simp only [Bool.and_eq_true, decide_eq_true_eq] at h
  have hlo : 48 ≤ c.toNat := h.1
  have hhi : c.toNat ≤ 57 := h.2
  have hne : ∀ d : Char, (d.toNat < 48 ∨ 57 < d.toNat) → c ≠ d := by
    rintro d hd rfl
    omega
  unfold isToken endsBare isAsciiWhitespace
  simp [hne]

theorem isToken_of_isNumberChar {c : Char} (h : isNumberChar c = true) : isToken c = true := by
  unfold isNumberChar at h
  simp only [Bool.or_eq_true, decide_eq_true_eq] at h
  rcases h with ((((h | rfl) | rfl) | rfl) | rfl) | rfl
  · exact isToken_of_isDigit h
  all_goals decide

theorem isToken_of_number {t : List Char} (h : Json.Number t) :
    t ≠ [] ∧ ∀ c ∈ t, isToken c = true := by
  obtain ⟨c, u, rfl, -⟩ := number_cons h
  exact ⟨List.cons_ne_nil c u, fun d hd =>
    isToken_of_isNumberChar (isNumberChar_of_number h d hd)⟩

/-- A value is a bare token, a string, or opens a bracket. -/
theorem value_shape {s r : List Char} {v : Json} (h : Json.Value s v r) :
    (∃ t, s = t ++ r ∧ t ≠ [] ∧ (∀ c ∈ t, isToken c = true) ∧ v.scalar = some (t.map .plain)) ∨
    (∃ s' p, s = '"' :: s' ∧ StrBody s' p r ∧ v.scalar = some p) ∨
    (∃ s', (s = '[' :: s' ∨ s = '{' :: s') ∧ v.scalar = none) := by
  cases h with
  | null => exact Or.inl ⟨nullText, rfl, by decide, List.all_eq_true.1 (by decide), rfl⟩
  | true => exact Or.inl ⟨trueText, rfl, by decide, List.all_eq_true.1 (by decide), rfl⟩
  | false => exact Or.inl ⟨falseText, rfl, by decide, List.all_eq_true.1 (by decide), rfl⟩
  | number h => exact Or.inl ⟨_, rfl, (isToken_of_number h).1, (isToken_of_number h).2, rfl⟩
  | string h => exact Or.inr (Or.inl ⟨_, _, rfl, h, rfl⟩)
  | emptyArray h => exact Or.inr (Or.inr ⟨_, Or.inl rfl, rfl⟩)
  | array h => exact Or.inr (Or.inr ⟨_, Or.inl rfl, rfl⟩)
  | emptyObject h => exact Or.inr (Or.inr ⟨_, Or.inr rfl, rfl⟩)
  | object h => exact Or.inr (Or.inr ⟨_, Or.inr rfl, rfl⟩)

/-! ## Skipping brackets -/

/-- The two kinds of brackets. -/
def Brackets (o c : Char) : Prop := (o = '[' ∧ c = ']') ∨ (o = '{' ∧ c = '}')

/-- The loop of `skip_json_value` at a depth that may have reached zero. -/
def resume (o c : Char) (fuel : Nat) (d : Int) (r : List Char) : Option (List Char) :=
  if d = 0 then some r else skipBrackets o c fuel d r

/-- What an opening bracket `b` adds to the depth of the brackets being counted. -/
def level (o b : Char) : Int := if b = o then 1 else 0

section Skip

variable {o c : Char}

theorem skipBrackets_string (fuel : Nat) (d : Int) {s r : List Char} {p : List Piece}
    (h : StrBody s p r) : skipBrackets o c (fuel + 1) d ('"' :: s) = skipBrackets o c fuel d r := by
  simp [skipBrackets, stringBody_of_strBody h]

theorem skipBrackets_plain (d : Int) {t : List Char}
    (ht : ∀ x ∈ t, x ≠ '"' ∧ x ≠ o ∧ x ≠ c) (fuel : Nat) (r : List Char) :
    skipBrackets o c (fuel + t.length) d (t ++ r) = skipBrackets o c fuel d r := by
  induction t with
  | nil => rfl
  | cons x t ih =>
    obtain ⟨hq, ho, hc⟩ := ht x List.mem_cons_self
    rw [List.length_cons, ← Nat.add_assoc, List.cons_append, skipBrackets, if_neg hq]
    dsimp only
    rw [if_neg ho, if_neg hc]
    exact ih fun y hy => ht y (List.mem_cons_of_mem _ hy)

theorem skipBrackets_open (hb : Brackets o c) {o' c' : Char} (hb' : Brackets o' c') (fuel : Nat)
    (d : Int) (r : List Char) :
    skipBrackets o c (fuel + 1) d (o' :: r) = skipBrackets o c fuel (d + level o o') r := by
  rcases hb with ⟨rfl, rfl⟩ | ⟨rfl, rfl⟩ <;> rcases hb' with ⟨rfl, rfl⟩ | ⟨rfl, rfl⟩ <;>
    simp [skipBrackets, level]

theorem skipBrackets_close (hb : Brackets o c) {o' c' : Char} (hb' : Brackets o' c') (fuel : Nat)
    {d : Int} (hd : 0 < d ∨ (d = 0 ∧ o' = o)) (r : List Char) :
    skipBrackets o c (fuel + 1) (d + level o o') (c' :: r) = resume o c fuel d r := by
  rcases hb with ⟨rfl, rfl⟩ | ⟨rfl, rfl⟩ <;> rcases hb' with ⟨rfl, rfl⟩ | ⟨rfl, rfl⟩ <;>
    simp [skipBrackets, level, resume] <;> simp at hd <;> omega

/-- Inside brackets, the loop passes from `s` to `r` at the depth it has. -/
def Skips (o c : Char) (s r : List Char) : Prop :=
  ∀ d, 0 < d → ∃ n, n + r.length ≤ s.length ∧
    ∀ fuel, skipBrackets o c (fuel + n) d s = skipBrackets o c fuel d r

/-- The loop passes from `s`, behind an opening `o'`, over the bracket that closes it. -/
def Closes (o c o' : Char) (s r : List Char) : Prop :=
  ∀ d, (0 < d ∨ (d = 0 ∧ o' = o)) → ∃ n, n + r.length ≤ s.length ∧
    ∀ fuel, skipBrackets o c (fuel + n) (d + level o o') s = resume o c fuel d r

theorem Skips.trans {s r q : List Char} (h : Skips o c s r) (h' : Skips o c r q) :
    Skips o c s q := by
  intro d hd
  obtain ⟨n, hn, hf⟩ := h d hd
  obtain ⟨k, hk, hf'⟩ := h' d hd
  refine ⟨k + n, by omega, fun fuel => ?_⟩
  rw [← Nat.add_assoc, hf, hf']

theorem Skips.closes {o' : Char} {s r q : List Char} (h : Skips o c s r)
    (h' : Closes o c o' r q) : Closes o c o' s q := by
  intro d hd
  have hpos : 0 < d + level o o' := by
    unfold level
    rcases hd with hd | ⟨hd, ho⟩
    · split_ifs <;> omega
    · rw [if_pos ho]
      omega
  obtain ⟨n, hn, hf⟩ := h (d + level o o') hpos
  obtain ⟨k, hk, hf'⟩ := h' d hd
  refine ⟨k + n, by omega, fun fuel => ?_⟩
  rw [← Nat.add_assoc, hf, hf']

theorem skips_plain {t : List Char} (ht : ∀ x ∈ t, x ≠ '"' ∧ x ≠ o ∧ x ≠ c) (r : List Char) :
    Skips o c (t ++ r) r := fun d _ =>
  ⟨t.length, by simp, fun fuel => skipBrackets_plain d ht fuel r⟩

theorem skips_char (hb : Brackets o c) {x : Char} (hx : x = ',' ∨ x = ':') (r : List Char) :
    Skips o c (x :: r) r := by
  refine skips_plain (t := [x]) (fun y hy => ?_) r
  rw [List.mem_singleton.1 hy]
  rcases hb with ⟨rfl, rfl⟩ | ⟨rfl, rfl⟩ <;> rcases hx with rfl | rfl <;> decide

theorem skips_ws (hb : Brackets o c) {s r : List Char} (h : Ws s r) : Skips o c s r := by
  obtain ⟨w, rfl, hw⟩ := h
  refine skips_plain (fun x hx => ?_) r
  have hws := hw x hx
  refine ⟨?_, ?_, ?_⟩ <;> rintro rfl <;> rcases hb with ⟨ho, hc⟩ | ⟨ho, hc⟩ <;> subst_vars <;>
    revert hws <;> decide

theorem skips_token (hb : Brackets o c) {t : List Char} (ht : ∀ x ∈ t, isToken x = true)
    (r : List Char) : Skips o c (t ++ r) r := by
  refine skips_plain (fun x hx => ?_) r
  have htok := ht x hx
  refine ⟨?_, ?_, ?_⟩ <;> rintro rfl <;> rcases hb with ⟨ho, hc⟩ | ⟨ho, hc⟩ <;> subst_vars <;>
    revert htok <;> decide

theorem skips_string {s r : List Char} {p : List Piece} (h : StrBody s p r) :
    Skips o c ('"' :: s) r := fun d _ =>
  ⟨1, by have := length_lt_of_strBody h; simp; omega, fun fuel => skipBrackets_string fuel d h⟩

theorem closes_bracket (hb : Brackets o c) {o' c' : Char} (hb' : Brackets o' c') (r : List Char) :
    Closes o c o' (c' :: r) r := fun d hd =>
  ⟨1, by simp; omega, fun fuel => skipBrackets_close hb hb' fuel hd r⟩

/-- An opening bracket and all behind it up to its closing one. -/
theorem Closes.skips (hb : Brackets o c) {o' c' : Char} (hb' : Brackets o' c') {s r : List Char}
    (h : Closes o c o' s r) : Skips o c (o' :: s) r := by
  intro d hd
  obtain ⟨n, hn, hf⟩ := h d (Or.inl hd)
  refine ⟨n + 1, by simp; omega, fun fuel => ?_⟩
  rw [← Nat.add_assoc, skipBrackets_open hb hb', hf, resume, if_neg (by omega)]

/-- A value is passed over, and where it opens the brackets being counted, what is behind
the opening one closes it. -/
structure Passes (o c : Char) (s r : List Char) : Prop where
  skips : Skips o c s r
  closes : ∀ t, s = o :: t → Closes o c o t r

theorem passes_token (hb : Brackets o c) {t : List Char} (hne : t ≠ [])
    (ht : ∀ x ∈ t, isToken x = true) (r : List Char) : Passes o c (t ++ r) r := by
  refine ⟨skips_token hb ht r, fun q hq => ?_⟩
  cases t with
  | nil => exact absurd rfl hne
  | cons x t =>
    cases hq
    have ho := ht o List.mem_cons_self
    rcases hb with ⟨rfl, -⟩ | ⟨rfl, -⟩ <;> exact absurd ho (by decide)

theorem passes_bracket (hb : Brackets o c) {o' c' : Char} (hb' : Brackets o' c') {s r : List Char}
    (h : Closes o c o' s r) : Passes o c (o' :: s) r := by
  refine ⟨h.skips hb hb', fun q hq => ?_⟩
  cases hq
  exact h

theorem passes_value (hb : Brackets o c) {s r : List Char} {v : Json} (h : Json.Value s v r) :
    Passes o c s r := by
  have hsq : Brackets '[' ']' := Or.inl ⟨rfl, rfl⟩
  have hcu : Brackets '{' '}' := Or.inr ⟨rfl, rfl⟩
  refine @Json.Value.rec (fun s _ r _ => Passes o c s r) (fun s _ r _ => Closes o c '[' s r)
    (fun s _ r _ => Closes o c '{' s r) ?_ ?_ ?_ ?_ ?_ ?_ ?_ ?_ ?_ ?_ ?_ ?_ ?_ s v r h
  · exact fun r => passes_token hb (by decide) (List.all_eq_true.1 (by decide)) r
  · exact fun r => passes_token hb (by decide) (List.all_eq_true.1 (by decide)) r
  · exact fun r => passes_token hb (by decide) (List.all_eq_true.1 (by decide)) r
  · exact fun ht r => passes_token hb (isToken_of_number ht).1 (isToken_of_number ht).2 r
  · refine fun hs => ⟨skips_string hs, fun q hq => ?_⟩
    cases hq
    rcases hb with ⟨ho, -⟩ | ⟨ho, -⟩ <;> cases ho
  · exact fun hw => passes_bracket hb hsq ((skips_ws hb hw).closes (closes_bracket hb hsq _))
  · exact fun _ ih => passes_bracket hb hsq ih
  · exact fun hw => passes_bracket hb hcu ((skips_ws hb hw).closes (closes_bracket hb hcu _))
  · exact fun _ ih => passes_bracket hb hcu ih
  · intro _ _ _ _ _ h1 _ h3 ih
    have hitem := (skips_ws hb h1).trans (ih.skips.trans (skips_ws hb h3))
    exact hitem.closes (closes_bracket hb hsq _)
  · intro _ _ _ _ _ _ _ h1 _ h3 _ ih ih'
    have hitem := (skips_ws hb h1).trans (ih.skips.trans (skips_ws hb h3))
    exact (hitem.trans (skips_char hb (Or.inl rfl) _)).closes ih'
  · intro _ _ _ _ _ _ _ _ _ h1 h2 h3 h4 _ h6 ih
    have hname := (skips_ws hb h1).trans ((skips_string h2).trans (skips_ws hb h3))
    have hvalue := (skips_ws hb h4).trans (ih.skips.trans (skips_ws hb h6))
    exact (hname.trans ((skips_char hb (Or.inr rfl) _).trans hvalue)).closes
      (closes_bracket hb hcu _)
  · intro _ _ _ _ _ _ _ _ _ _ _ h1 h2 h3 h4 _ h6 _ ih ih'
    have hname := (skips_ws hb h1).trans ((skips_string h2).trans (skips_ws hb h3))
    have hvalue := (skips_ws hb h4).trans (ih.skips.trans (skips_ws hb h6))
    exact (hname.trans ((skips_char hb (Or.inr rfl) _).trans
      (hvalue.trans (skips_char hb (Or.inl rfl) _)))).closes ih'

/-- From the opening bracket of a value the loop returns right behind it. -/
theorem skipBrackets_value (hb : Brackets o c) {t r : List Char} {v : Json}
    (h : Json.Value (o :: t) v r) : skipBrackets o c (t.length + 2) 0 (o :: t) = some r := by
  obtain ⟨n, hn, hf⟩ := (passes_value hb h).closes t rfl 0 (Or.inr ⟨rfl, rfl⟩)
  rw [show t.length + 2 = (t.length + 1 - n) + n + 1 by omega, skipBrackets_open hb hb, hf]
  rfl

end Skip

/-! ## Members -/

/-- What may follow a bare token. -/
def EndsToken (r : List Char) : Prop := ∀ c t, r = c :: t → endsBare c = true

theorem takeWhile_token {t r : List Char} (ht : ∀ c ∈ t, isToken c = true) (hr : EndsToken r) :
    (t ++ r).takeWhile (fun c => !endsBare c) = t ∧
      (t ++ r).dropWhile (fun c => !endsBare c) = r := by
  have htok : ∀ c ∈ t, (!endsBare c) = true := fun c hc => by
    have h := ht c hc
    unfold isToken at h
    simp only [Bool.and_eq_true] at h
    exact h.1.1.1
  rw [List.takeWhile_append_of_pos htok, List.dropWhile_append_of_pos htok]
  cases r with
  | nil => simp
  | cons c r => simp [hr c r rfl]

theorem token_head {c : Char} (h : isToken c = true) :
    isAsciiWhitespace c = false ∧ c ≠ '"' ∧ c ≠ '{' ∧ c ≠ '[' := by
  unfold isToken endsBare at h
  simp only [Bool.and_eq_true, Bool.not_eq_true', Bool.or_eq_false_iff, decide_eq_true_eq] at h
  exact ⟨h.1.1.1.2, h.1.1.2, h.1.2, h.2⟩

/-- The scanner captures a scalar as its text, and nothing else. -/
theorem captureScalar_value {s s' r : List Char} {v : Json} (hw : Ws s s') (h : Json.Value s' v r)
    (hr : EndsToken r) : captureScalar s = v.scalar.map (·.map shown) := by
  unfold captureScalar
  rw [skipWs_of_ws hw]
  rcases value_shape h with ⟨t, rfl, hne, ht, hv⟩ | ⟨s', p, rfl, hp, hv⟩ | ⟨s', hs, hv⟩
  · obtain ⟨htake, -⟩ := takeWhile_token ht hr
    cases t with
    | nil => exact absurd rfl hne
    | cons c t =>
      obtain ⟨hws, hq, ho, ha⟩ := token_head (ht c List.mem_cons_self)
      rw [List.cons_append] at htake ⊢
      rw [skipWs_cons hws]
      dsimp only
      rw [if_neg hq, if_neg (not_or.2 ⟨ho, ha⟩), htake, hv]
      simp [shown, Function.comp_def]
  · rw [skipWs_cons (by decide)]
    simp [stringBody_of_strBody hp, hv]
  · rcases hs with rfl | rfl <;> (rw [skipWs_cons (by decide)]; simp [hv])

theorem skipJsonValue_value {s s' r : List Char} {v : Json} (hw : Ws s s') (h : Json.Value s' v r)
    (hr : EndsToken r) : skipJsonValue s = some r := by
  unfold skipJsonValue
  rw [skipWs_of_ws hw]
  rcases value_shape h with ⟨t, rfl, hne, ht, -⟩ | ⟨s', p, rfl, hp, -⟩ | ⟨s', hs, -⟩
  · obtain ⟨-, hdrop⟩ := takeWhile_token ht hr
    cases t with
    | nil => exact absurd rfl hne
    | cons c t =>
      obtain ⟨hws, hq, ho, ha⟩ := token_head (ht c List.mem_cons_self)
      rw [List.cons_append] at hdrop ⊢
      rw [skipWs_cons hws]
      dsimp only
      rw [if_neg hq, if_neg ho, if_neg ha, hdrop]
  · rw [skipWs_cons (by decide)]
    simp [stringBody_of_strBody hp]
  · rcases hs with rfl | rfl
    · rw [skipWs_cons (by decide)]
      exact skipBrackets_value (Or.inl ⟨rfl, rfl⟩) h
    · rw [skipWs_cons (by decide)]
      exact skipBrackets_value (Or.inr ⟨rfl, rfl⟩) h

/-- A text the value skipper gives up on is no JSON text. -/
theorem skipJsonValue_text {s : List Char} {v : Json} (h : Text s v) :
    (skipJsonValue s).isSome = true := by
  obtain ⟨s1, s2, h1, h2, w, hw, hws⟩ := h
  have hends : EndsToken s2 := by
    intro c t hc
    rw [List.append_nil] at hw
    have hmem : c ∈ w := by rw [← hw, hc]; exact List.mem_cons_self
    unfold endsBare
    rw [isAsciiWhitespace_of_isWs (hws c hmem), Bool.or_true]
  rw [skipJsonValue_value h1 h2 hends]
  rfl

theorem length_lt_of_value {s r : List Char} {v : Json} (h : Json.Value s v r) :
    r.length ≤ s.length := by
  obtain ⟨n, hn, -⟩ := (passes_value (Or.inl ⟨rfl, rfl⟩) h).skips 1 (by omega)
  omega

theorem length_le_of_ws {s r : List Char} (h : Ws s r) : r.length ≤ s.length := by
  obtain ⟨w, rfl, -⟩ := h
  simp

theorem endsToken_of_ws {s r : List Char} {c : Char} (h : Ws s (c :: r)) (hc : endsBare c = true) :
    EndsToken s := by
  obtain ⟨w, rfl, hw⟩ := h
  intro x t hx
  cases w with
  | nil => cases hx; exact hc
  | cons y w =>
    cases hx
    have hws := isAsciiWhitespace_of_isWs (hw x List.mem_cons_self)
    unfold endsBare
    rw [hws, Bool.or_true]

/-- The first member of a name, as the scanner spells names. -/
def firstMember (key : List Char) (ms : List (List Piece × Json)) : Option Json :=
  (ms.find? fun m => m.1.map shown = key).map (·.2)

def scalarText (v : Json) : Option (List Char) := v.scalar.map (·.map shown)

/-- One round of the member loop. -/
theorem extractMember_round (key : List Char) {s s1 s2 s3 s4 s5 s6 : List Char}
    {k : List Piece} {v : Json} {x : Char} (h1 : Ws s ('"' :: s1)) (h2 : StrBody s1 k s2)
    (h3 : Ws s2 (':' :: s3)) (h4 : Ws s3 s4) (h5 : Json.Value s4 v s5) (h6 : Ws s5 (x :: s6))
    (hx : x = ',' ∨ x = '}') (fuel : Nat) :
    extractMember key (fuel + 1) s =
      if k.map shown = key then scalarText v
      else if x = ',' then extractMember key fuel s6 else none := by
  have hends : EndsToken s5 := endsToken_of_ws h6 (by rcases hx with rfl | rfl <;> decide)
  have hname : parseJsonString (skipWs s) = some (k.map shown, s2) := by
    rw [skipWs_of_ws h1, skipWs_cons (by decide)]
    simp [parseJsonString, stringBody_of_strBody h2]
  have hcolon : skipWs s2 = ':' :: s3 := by rw [skipWs_of_ws h3, skipWs_cons (by decide)]
  have hnext : skipWs s5 = x :: s6 := by
    rw [skipWs_of_ws h6, skipWs_cons (by rcases hx with rfl | rfl <;> decide)]
  have hskip := skipJsonValue_value h4 h5 hends
  have hcapture := captureScalar_value h4 h5 hends
  cases s with
  | nil =>
    obtain ⟨w, hw, -⟩ := h1
    simp at hw
  | cons y s =>
    conv_lhs => unfold extractMember
    dsimp only
    rw [hname]
    dsimp only
    rw [hcolon]
    dsimp only
    rw [if_neg (by simp), hskip, hcapture]
    by_cases hk : k.map shown = key
    · rw [if_pos hk, if_pos hk]
      rfl
    · rw [if_neg hk, if_neg hk]
      dsimp only
      rw [hnext]
      rcases hx with rfl | rfl <;> simp

theorem firstMember_cons (key : List Char) (k : List Piece) (v : Json)
    (ms : List (List Piece × Json)) : firstMember key ((k, v) :: ms) =
      if k.map shown = key then some v else firstMember key ms := by
  unfold firstMember
  by_cases hk : k.map shown = key <;> simp [hk]

/-- The member loop reads the first member of the name. -/
theorem extractMember_members (key : List Char) {s r : List Char}
    {ms : List (List Piece × Json)} (h : Members s ms r) :
    ∀ fuel, s.length < fuel →
      extractMember key fuel s = (firstMember key ms).bind scalarText := by
  refine @Members.rec (fun _ _ _ _ => True) (fun _ _ _ _ => True)
    (fun s ms _ _ => ∀ fuel, s.length < fuel →
      extractMember key fuel s = (firstMember key ms).bind scalarText)
    (fun _ => trivial) (fun _ => trivial) (fun _ => trivial) (fun _ _ => trivial)
    (fun _ => trivial) (fun _ => trivial) (fun _ _ => trivial) (fun _ => trivial)
    (fun _ _ => trivial) (fun _ _ _ _ => trivial) (fun _ _ _ _ _ _ => trivial) ?_ ?_ s ms r h
  · intro s s1 s2 s3 s4 s5 r k v h1 h2 h3 h4 h5 h6 _ fuel hfuel
    obtain ⟨fuel, rfl⟩ : ∃ n, fuel = n + 1 := ⟨fuel - 1, by omega⟩
    rw [extractMember_round key h1 h2 h3 h4 h5 h6 (Or.inr rfl), firstMember_cons]
    by_cases hk : k.map shown = key
    · rw [if_pos hk, if_pos hk]
      rfl
    · rw [if_neg hk, if_neg hk]
      rfl
  · intro s s1 s2 s3 s4 s5 s6 r k v ms h1 h2 h3 h4 h5 h6 _ _ ih fuel hfuel
    obtain ⟨fuel, rfl⟩ : ∃ n, fuel = n + 1 := ⟨fuel - 1, by omega⟩
    have hlen : s6.length < fuel := by
      have hl1 := length_le_of_ws h1
      have hl2 := length_lt_of_strBody h2
      have hl3 := length_le_of_ws h3
      have hl4 := length_le_of_ws h4
      have hl5 := length_lt_of_value h5
      have hl6 := length_le_of_ws h6
      simp only [List.length_cons] at hl1 hl3 hl6
      omega
    rw [extractMember_round key h1 h2 h3 h4 h5 h6 (Or.inl rfl), firstMember_cons, if_pos rfl,
      ih fuel hlen]
    by_cases hk : k.map shown = key
    · rw [if_pos hk, if_pos hk]
      rfl
    · rw [if_neg hk, if_neg hk]

theorem members_skipWs {s r : List Char} {ms : List (List Piece × Json)} (h : Members s ms r) :
    ∃ t, skipWs s = '"' :: t ∧ Members ('"' :: t) ms r := by
  have hrefl : ∀ t : List Char, Ws t t := fun t => ⟨[], rfl, fun _ hc => by cases hc⟩
  cases h with
  | last h1 h2 h3 h4 h5 h6 =>
    exact ⟨_, by rw [skipWs_of_ws h1, skipWs_cons (by decide)], .last (hrefl _) h2 h3 h4 h5 h6⟩
  | cons h1 h2 h3 h4 h5 h6 h7 =>
    exact ⟨_, by rw [skipWs_of_ws h1, skipWs_cons (by decide)], .cons (hrefl _) h2 h3 h4 h5 h6 h7⟩

/-- On a well-formed body the scanner finds the first top-level member of the name, where the
body is an object, and reads it where it is a scalar. -/
theorem extractJsonField_text {body : String} {v : Json} (h : Text body.toList v) (key : String) :
    extractJsonField body key =
      (match v with
        | .object ms => (firstMember key.toList ms).bind scalarText
        | _ => none).map String.ofList := by
  obtain ⟨s1, s2, h1, h2, -⟩ := h
  unfold extractJsonField
  rw [skipWs_of_ws h1]
  cases h2 with
  | emptyObject h =>
    rw [skipWs_cons (by decide)]
    dsimp only
    rw [skipWs_of_ws h, skipWs_cons (by decide)]
    simp [firstMember]
  | object h =>
    obtain ⟨t, ht, hmem⟩ := members_skipWs h
    rw [skipWs_cons (by decide)]
    dsimp only
    rw [ht, if_neg (by simp), if_neg (by simp),
      extractMember_members key.toList hmem _ (Nat.lt_succ_self _)]
  | null => simp [nullText, skipWs_cons (show isAsciiWhitespace 'n' = false by decide)]
  | true => simp [trueText, skipWs_cons (show isAsciiWhitespace 't' = false by decide)]
  | false => simp [falseText, skipWs_cons (show isAsciiWhitespace 'f' = false by decide)]
  | @number t h r =>
    obtain ⟨hne, htok⟩ := isToken_of_number h
    cases t with
    | nil => exact absurd rfl hne
    | cons c t =>
      obtain ⟨hws, -, ho, -⟩ := token_head (htok c List.mem_cons_self)
      rw [List.cons_append, skipWs_cons hws]
      simp [ho]
  | string h => rw [skipWs_cons (by decide)]; simp
  | emptyArray h => rw [skipWs_cons (by decide)]; simp
  | array h => rw [skipWs_cons (by decide)]; simp

/-- The first top-level member whose decoded name is the field name holds this value; an
escape beyond ASCII decodes to a question mark. -/
def IsFirstMember (key : String) (ms : List (List Piece × Json)) (value : Json) : Prop :=
  ∃ before name after, ms = before ++ (name, value) :: after ∧ name.map shown = key.toList ∧
    ∀ m ∈ before, m.1.map shown ≠ key.toList

theorem firstMember_eq_some {key : String} {ms : List (List Piece × Json)} {value : Json} :
    firstMember key.toList ms = some value ↔ IsFirstMember key ms value := by
  unfold firstMember
  rw [Option.map_eq_some_iff]
  constructor
  · rintro ⟨⟨name, v⟩, hfind, rfl⟩
    obtain ⟨hname, before, after, hms, hbefore⟩ := List.find?_eq_some_iff_append.1 hfind
    refine ⟨before, name, after, hms, by simpa using hname, ?_⟩
    intro m hm
    simpa using hbefore m hm
  · rintro ⟨before, name, after, hms, hname, hbefore⟩
    refine ⟨(name, value), List.find?_eq_some_iff_append.2 ⟨by simpa using hname, before, after,
      hms, ?_⟩, rfl⟩
    intro m hm
    simpa using hbefore m hm

theorem firstMember_eq_none {key : String} {ms : List (List Piece × Json)} :
    firstMember key.toList ms = none ↔ ∀ m ∈ ms, m.1.map shown ≠ key.toList := by
  unfold firstMember
  rw [Option.map_eq_none_iff, List.find?_eq_none]
  simp only [decide_eq_true_eq, ne_eq]

theorem scalar_eq_none {v : Json} :
    v.scalar = none ↔ (∃ items, v = .array items) ∨ ∃ members, v = .object members := by
  cases v with
  | bool b => cases b <;> simp [Json.scalar]
  | null | number | string | array | object => simp [Json.scalar]

/-- On an object the scanner answers with the first member of the name and no other: its text,
where it is a string, number or literal, and nothing where it is an array or an object. -/
theorem extractJsonField_object {body : String} {ms : List (List Piece × Json)}
    (h : Text body.toList (.object ms)) (key : String) :
    (∀ v, extractJsonField body key = some v ↔
      ∃ value text, IsFirstMember key ms value ∧ value.scalar = some text ∧
        v = String.ofList (text.map shown)) ∧
    (extractJsonField body key = none ↔
      (∀ m ∈ ms, m.1.map shown ≠ key.toList) ∨
        ∃ value, IsFirstMember key ms value ∧
          ((∃ items, value = .array items) ∨ ∃ members, value = .object members)) := by
  rw [extractJsonField_text h]
  refine ⟨fun v => ?_, ?_⟩
  · simp only [Option.map_eq_some_iff, Option.bind_eq_some_iff, scalarText, firstMember_eq_some]
    constructor
    · rintro ⟨_, ⟨value, hfirst, text, hscalar, rfl⟩, rfl⟩
      exact ⟨value, text, hfirst, hscalar, rfl⟩
    · rintro ⟨value, text, hfirst, hscalar, rfl⟩
      exact ⟨_, ⟨value, hfirst, text, hscalar, rfl⟩, rfl⟩
  · simp only [Option.map_eq_none_iff, ← firstMember_eq_none, ← firstMember_eq_some,
      ← scalar_eq_none]
    cases hfirst : firstMember key.toList ms with
    | none => simp
    | some value => simp [scalarText]

/-- `{"a":{"k":"]"},"k":true}` -/
def nestedName : String := String.ofList
  ['{', '"', 'a', '"', ':', '{', '"', 'k', '"', ':', '"', ']', '"', '}', ',', '"', 'k', '"', ':',
    't', 'r', 'u', 'e', '}']

theorem nestedName_text : Text nestedName.toList
    (.object [([.plain 'a'], .object [([.plain 'k'], .string [.plain ']'])]),
      ([.plain 'k'], .bool true)]) := by
  have hrefl : ∀ t : List Char, Ws t t := fun t => ⟨[], rfl, fun _ hc => by cases hc⟩
  have hletter : ∀ (c : Char) (t : List Char), 0x20 ≤ c.toNat → c ≠ '"' → c ≠ '\\' →
      StrBody (c :: '"' :: t) [.plain c] t :=
    fun c t h1 h2 h3 => .plain h1 h2 h3 (.close t)
  have hinner : Json.Value
      ['{', '"', 'k', '"', ':', '"', ']', '"', '}', ',', '"', 'k', '"', ':', 't', 'r', 'u', 'e', '}']
      (.object [([.plain 'k'], .string [.plain ']'])])
      [',', '"', 'k', '"', ':', 't', 'r', 'u', 'e', '}'] :=
    .object (.last (hrefl _) (hletter 'k' _ (by decide) (by decide) (by decide)) (hrefl _)
      (hrefl _) (.string (hletter ']' _ (by decide) (by decide) (by decide))) (hrefl _))
  have hlast : Members ['"', 'k', '"', ':', 't', 'r', 'u', 'e', '}'] [([.plain 'k'], .bool true)] [] :=
    .last (hrefl _) (hletter 'k' _ (by decide) (by decide) (by decide)) (hrefl _) (hrefl _)
      (.true ['}']) (hrefl _)
  unfold nestedName
  rw [String.toList_ofList]
  exact ⟨_, [], hrefl _, .object (.cons (hrefl _) (hletter 'a' _ (by decide) (by decide) (by decide))
    (hrefl _) (hrefl _) hinner (hrefl _) hlast), hrefl _⟩

theorem extractJsonField_object_nested : extractJsonField nestedName "k" = some "true" := by
  refine ((extractJsonField_object nestedName_text "k").1 "true").2 ?_
  refine ⟨.bool true, trueText.map .plain, ?_, rfl, by decide⟩
  exact ⟨[([.plain 'a'], .object [([.plain 'k'], .string [.plain ']'])])], [.plain 'k'], [], rfl,
    by decide, by decide⟩

end TreeMiner
