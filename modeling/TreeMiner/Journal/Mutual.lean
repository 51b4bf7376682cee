import Mathlib.Data.List.TakeWhile
import TreeMiner.Journal.CppSink
import TreeMiner.Journal.Durability

/-! Sink files of the two miners: the C++ writer writes the bytes of the Rust one but for
the rate's literal, and each importer reads the lines of both writers. -/

namespace TreeMiner.Cpp

open Lib Lib.Json

/-! ## Bytes of characters -/

theorem utf8EncodeChar_ascii {c : Char} (h : c.toNat < 128) :
    String.utf8EncodeChar c = [UInt8.ofNat c.toNat] := by
  have hc : c.val.toNat = c.toNat := rfl
  unfold String.utf8EncodeChar
  rw [hc]
  dsimp only
  rw [if_pos (by omega)]

theorem utf8_ascii {cs : List Char} (h : ∀ c ∈ cs, c.toNat < 128) :
    utf8 cs = cs.map fun c => UInt8.ofNat c.toNat := by
  induction cs with
  | nil => rfl
  | cons c cs ih =>
    rw [List.forall_mem_cons] at h
    rw [List.map_cons, ← ih h.2, utf8, List.flatMap_cons, utf8EncodeChar_ascii h.1]
    rfl

theorem lit_toList (cs : List Char) : lit (String.ofList cs) = utf8 cs := by
  unfold lit
  rw [String.toList_ofList]

theorem lit_beq (k k' : String) : (lit k == lit k') = (k == k') := by
  have hinj : lit k = lit k' ↔ k = k' := by
    refine ⟨fun h => ?_, fun h => h ▸ rfl⟩
    have hk := fromUtf8_utf8 k.toList
    unfold lit at h
    rw [h, fromUtf8_utf8, Option.some_inj, String.ofList_toList, String.ofList_toList] at hk
    exact hk.symm
  rw [Bool.eq_iff_iff, beq_iff_eq, beq_iff_eq, hinj]

/-- Bytes from 0x80 on are written as they are. -/
theorem escapeByte_high {b : UInt8} (h : 0x80 ≤ b.toNat) : escapeByte b = [b] := by
  have hne : ∀ n : UInt8, n.toNat < 0x80 → b ≠ n := by
    rintro n hn rfl
    omega
  have hlow : ¬ b < 0x20 := by
    rw [UInt8.lt_iff_toNat_lt]
    change ¬ b.toNat < 32
    omega
  unfold escapeByte
  rw [if_neg (hne _ (by decide)), if_neg (hne _ (by decide)), if_neg (hne _ (by decide)),
    if_neg (hne _ (by decide)), if_neg (hne _ (by decide)), if_neg (hne _ (by decide)),
    if_neg (hne _ (by decide)), if_neg hlow]

theorem escape_ascii : ∀ n < 128, utf8 (escape (Char.ofNat n)) = escapeByte (UInt8.ofNat n) := by
  decide

/-- The two writers escape a character by the same bytes. -/
theorem utf8_escape (c : Char) :
    utf8 (escape c) = (String.utf8EncodeChar c).flatMap escapeByte := by
  by_cases hc : c.toNat < 128
  · rw [utf8EncodeChar_ascii hc, List.flatMap_singleton, ← escape_ascii _ hc, Char.ofNat_toNat]
  · have hbytes : ∀ b ∈ String.utf8EncodeChar c, escapeByte b = [b] := by
      intro b hb
      rcases byte_of_utf8EncodeChar hb with h | h
      · exact escapeByte_high (by omega)
      · exact escapeByte_high h
    have hsame : escape c = [c] := by
      rcases escape_cases c with ⟨e, -, -, -, h⟩ | ⟨-, h⟩ | ⟨h, -⟩
      · omega
      · omega
      · exact h
    rw [hsame, List.flatMap_congr hbytes, List.flatMap_singleton']
    simp [utf8]

theorem utf8_flatMap_escape (cs : List Char) :
    utf8 (cs.flatMap escape) = (utf8 cs).flatMap escapeByte := by
  unfold utf8
  rw [List.flatMap_assoc, List.flatMap_assoc]
  exact List.flatMap_congr fun c _ => utf8_escape c

theorem utf8_cons {c : Char} (h : c.toNat < 128) (cs : List Char) :
    utf8 (c :: cs) = UInt8.ofNat c.toNat :: utf8 cs := by
  unfold utf8
  rw [List.flatMap_cons, utf8EncodeChar_ascii h, List.singleton_append]

/-- A string literal of the Rust writer, in bytes. -/
theorem utf8_jsonString (s : String) :
    utf8 (jsonString s) = 34 :: ((lit s).flatMap escapeByte ++ [34]) := by
  unfold jsonString lit
  rw [utf8_cons (by decide), utf8_append, utf8_flatMap_escape]
  rfl

/-! ## Strings read back -/

/-- A byte is written with a short escape, with a numeric one, or as it is. -/
theorem escapeByte_cases (b : UInt8) :
    (∃ e, escapeByte b = [92, e] ∧ e ≠ 117 ∧ unescape e = some b) ∨
    (∃ h3 h4 n3 n4, escapeByte b = [92, 117, 48, 48, h3, h4] ∧ hexNibble h3 = some n3 ∧
      hexNibble h4 = some n4 ∧ appendUtf8 (n3 * 16 + n4) = [b]) ∨
    (escapeByte b = [b] ∧ b ≠ 34 ∧ b ≠ 92) := by
  unfold escapeByte
  split_ifs with h1 h2 h3 h4 h5 h6 h7 h8
  · exact Or.inl ⟨34, rfl, by decide, by rw [h1]; decide⟩
  · exact Or.inl ⟨92, rfl, by decide, by rw [h2]; decide⟩
  · exact Or.inl ⟨98, rfl, by decide, by rw [h3]; decide⟩
  · exact Or.inl ⟨102, rfl, by decide, by rw [h4]; decide⟩
  · exact Or.inl ⟨110, rfl, by decide, by rw [h5]; decide⟩
  · exact Or.inl ⟨114, rfl, by decide, by rw [h6]; decide⟩
  · exact Or.inl ⟨116, rfl, by decide, by rw [h7]; decide⟩
  · have hdigits : ∀ n < 32, hexNibble (hexByte ((UInt8.ofNat n >>> 4) &&& 0xf)) = some (n / 16) ∧
        hexNibble (hexByte (UInt8.ofNat n &&& 0xf)) = some (n % 16) ∧
        appendUtf8 (n / 16 * 16 + n % 16) = [UInt8.ofNat n] := by decide
    rw [UInt8.lt_iff_toNat_lt] at h8
    have := hdigits b.toNat h8
    rw [UInt8.ofNat_toNat] at this
    exact Or.inr (Or.inl ⟨_, _, _, _, rfl, this⟩)
  · exact Or.inr (Or.inr ⟨rfl, h1, h2⟩)

theorem parseJsonBody_escapeByte (b : UInt8) (s : List UInt8) :
    parseJsonBody (escapeByte b ++ s) = (parseJsonBody s).map fun r => (b :: r.1, r.2) := by
  rcases escapeByte_cases b with ⟨e, he, hu, hb⟩ | ⟨h3, h4, n3, n4, he, hn3, hn4, hb⟩ | ⟨he, h1, h2⟩
  · rw [he, List.cons_append, List.cons_append, List.nil_append, parseJsonBody.eq_def]
    simp [hu, hb]
  · have hzero : hexNibble 48 = some 0 := by decide
    rw [he]
    simp only [List.cons_append, List.nil_append]
    rw [parseJsonBody.eq_def]
    simp [hzero, hn3, hn4, hb]
  · rw [he, List.singleton_append, parseJsonBody.eq_def]
    simp [h1, h2]

theorem parseJsonBody_escaped (value rest : List UInt8) :
    parseJsonBody (value.flatMap escapeByte ++ 34 :: rest) = some (value, rest) := by
  induction value with
  | nil =>
    rw [List.flatMap_nil, List.nil_append, parseJsonBody.eq_def]
    simp
  | cons b value ih =>
    rw [List.flatMap_cons, List.append_assoc, parseJsonBody_escapeByte, ih]
    rfl

theorem parseJsonString_jsonString (s : String) (rest : List UInt8) :
    parseJsonString (utf8 (jsonString s) ++ rest) = some (lit s, rest) := by
  rw [utf8_jsonString, List.cons_append, List.append_assoc, List.singleton_append, parseJsonString,
    if_pos rfl, parseJsonBody_escaped]

/-! ## Values in front of a delimiter -/

theorem skipWs_cons {c : UInt8} (h : isWs c = false) (s : List UInt8) :
    skipWs (c :: s) = c :: s := by
  unfold skipWs
  rw [List.dropWhile_cons_of_neg (by simp [h])]

/-- The scanner reads the text as the value, up to a delimiter. -/
def Scanned (text : List Char) (value : List UInt8) : Prop :=
  ∀ d rest, isDelimiter d = true →
    parseValue (skipWs (utf8 text ++ d :: rest)) = some (value, d :: rest)

theorem scanned_string (s : String) : Scanned (jsonString s) (lit s) := by
  intro d rest hd
  have hread := parseJsonString_jsonString s (d :: rest)
  rw [utf8_jsonString, List.cons_append] at hread ⊢
  rw [skipWs_cons (by decide)]
  simp only [parseValue, if_true]
  exact hread

/-- A character of a number is a byte that ends no token and starts nothing else. -/
theorem numberChar_byte {c : Char} (h : isNumberChar c = true) : c.toNat < 128 ∧
    isDelimiter (UInt8.ofNat c.toNat) = false ∧ UInt8.ofNat c.toNat ≠ 34 ∧
    UInt8.ofNat c.toNat ≠ 123 ∧ UInt8.ofNat c.toNat ≠ 91 ∧ UInt8.ofNat c.toNat ≠ 0 ∧
    (UInt8.ofNat c.toNat ≠ 110 ∧ UInt8.ofNat c.toNat ≠ 105 ∧ UInt8.ofNat c.toNat ≠ 78 ∧
      UInt8.ofNat c.toNat ≠ 73) := by
  have hascii : c.toNat < 128 := by
    unfold isNumberChar Lib.Json.isDigit at h
    simp only [Bool.or_eq_true, Bool.and_eq_true, decide_eq_true_eq] at h
    rcases h with ((((⟨-, h⟩ | rfl) | rfl) | rfl) | rfl) | rfl
    · exact lt_of_le_of_lt (show c.toNat ≤ ('9' : Char).toNat from h) (by decide)
    all_goals decide
  have hall : ∀ n < 128, isNumberChar (Char.ofNat n) = true →
      isDelimiter (UInt8.ofNat n) = false ∧ UInt8.ofNat n ≠ 34 ∧ UInt8.ofNat n ≠ 123 ∧
      UInt8.ofNat n ≠ 91 ∧ UInt8.ofNat n ≠ 0 ∧ (UInt8.ofNat n ≠ 110 ∧ UInt8.ofNat n ≠ 105 ∧
        UInt8.ofNat n ≠ 78 ∧ UInt8.ofNat n ≠ 73) := by
    decide
  exact ⟨hascii, hall _ hascii (by rwa [Char.ofNat_toNat])⟩

theorem scanned_number {t : List Char} (h : Json.Number t) : Scanned t (utf8 t) := by
  intro d rest hd
  have hchar := isNumberChar_of_number h
  have hbytes : ∀ b ∈ utf8 t, isDelimiter b = false := by
    rw [utf8_ascii fun c hc => (numberChar_byte (hchar c hc)).1]
    intro b hb
    obtain ⟨c, hc, rfl⟩ := List.mem_map.1 hb
    exact (numberChar_byte (hchar c hc)).2.1
  obtain ⟨c, u, rfl, -⟩ := number_cons h
  obtain ⟨hascii, hdelim, h34, h123, h91, -⟩ := numberChar_byte (hchar c List.mem_cons_self)
  rw [utf8_cons hascii] at hbytes ⊢
  have hws : isWs (UInt8.ofNat c.toNat) = false := by
    unfold isDelimiter at hdelim
    simp only [Bool.or_eq_false_iff] at hdelim
    exact hdelim.2
  rw [List.cons_append, skipWs_cons hws]
  simp only [parseValue, h34, h123, h91, hdelim, or_self, if_false, Bool.false_eq_true]
  rw [← List.cons_append, List.takeWhile_append_of_pos (by simpa using hbytes),
    List.dropWhile_append_of_pos (by simpa using hbytes)]
  simp [hd]

/-! ## Fields and the object -/

theorem skipWs_jsonString (s : String) (rest : List UInt8) :
    skipWs (utf8 (jsonString s) ++ rest) = utf8 (jsonString s) ++ rest := by
  rw [utf8_jsonString, List.cons_append, skipWs_cons (by decide)]

theorem parseField_joined {f : Codec.Field} {value : List UInt8} (h : Scanned f.text value)
    {d : UInt8} (hd : isDelimiter d = true) (rest : List UInt8) :
    parseField (utf8 (jsonString f.key ++ ':' :: f.text) ++ d :: rest) =
      some ((lit f.key, value), d :: rest) := by
  have hcolon : utf8 (':' :: f.text) = 58 :: utf8 f.text := utf8_cons (by decide) _
  unfold parseField
  rw [utf8_append, List.append_assoc, skipWs_jsonString, parseJsonString_jsonString, hcolon,
    List.cons_append, Option.bind_eq_bind, Option.bind_some]
  dsimp only
  rw [skipWs_cons (by decide)]
  simp only [if_true, h d rest hd, Option.map_some]

/-- The fields as the scanner keeps them, the last in front. -/
def scannedFields (fs : List Codec.Field) (values : List (List UInt8)) : Fields :=
  ((fs.map fun f => lit f.key).zip values).reverse

theorem parseFields_eq (fields : Fields) (s : List UInt8) :
    parseFields fields s = (parseField s).bind fun r =>
      match skipWs r.2 with
      | [] => some (r.1 :: fields, [])
      | c :: t =>
        if c = 44 then parseFields (r.1 :: fields) t else some (r.1 :: fields, c :: t) := by
  rw [parseFields]
  split
  next h => rw [h, Option.bind_none]
  next field rest h =>
    rw [h, Option.bind_some]
    split
    next hs => simp only [hs]
    next c t hs => simp only [hs]

theorem parseFields_joined {f : Codec.Field} {fs : List Codec.Field} {value : List UInt8}
    {values : List (List UInt8)} (h : Scanned f.text value)
    (hs : List.Forall₂ (fun (g : Codec.Field) v => Scanned g.text v) fs values) (fields : Fields)
    (rest : List UInt8) :
    parseFields fields (utf8 (Codec.joined (f :: fs)) ++ 125 :: rest) =
      some (scannedFields (f :: fs) (value :: values) ++ fields, 125 :: rest) := by
  induction hs generalizing f value fields with
  | nil =>
    have hfield := parseField_joined h (d := 125) (by decide) rest
    rw [parseFields_eq, show Codec.joined [f] = jsonString f.key ++ ':' :: f.text from rfl, hfield,
      Option.bind_some]
    dsimp only
    rw [skipWs_cons (by decide)]
    simp [scannedFields]
  | @cons g v gs vs hg hs ih =>
    have hcomma : utf8 (Codec.joined (f :: g :: gs)) = utf8 (jsonString f.key ++ ':' :: f.text) ++
        44 :: utf8 (Codec.joined (g :: gs)) := by
      rw [show Codec.joined (f :: g :: gs) = jsonString f.key ++ ':' :: f.text ++
        ',' :: Codec.joined (g :: gs) from rfl, utf8_append, utf8_cons (by decide)]
      rfl
    rw [parseFields_eq, hcomma, List.append_assoc, List.cons_append,
      parseField_joined h (by decide), Option.bind_some]
    dsimp only
    rw [skipWs_cons (by decide)]
    simp only [if_true]
    rw [ih hg]
    simp [scannedFields]

theorem joined_quote (f : Codec.Field) (fs : List Codec.Field) :
    ∃ tail, utf8 (Codec.joined (f :: fs)) = 34 :: tail := by
  have hhead : ∃ tail, Codec.joined (f :: fs) = '"' :: tail := by
    cases fs with
    | nil => exact ⟨_, rfl⟩
    | cons g gs => exact ⟨_, rfl⟩
  obtain ⟨tail, htail⟩ := hhead
  exact ⟨utf8 tail, by rw [htail, utf8_cons (by decide)]; rfl⟩

theorem parseFlatObject_joined {f : Codec.Field} {fs : List Codec.Field} {value : List UInt8}
    {values : List (List UInt8)} (h : Scanned f.text value)
    (hs : List.Forall₂ (fun (g : Codec.Field) v => Scanned g.text v) fs values) :
    parseFlatObject (utf8 ('{' :: Codec.joined (f :: fs) ++ ['}'])) =
      some (scannedFields (f :: fs) (value :: values)) := by
  have hbytes : utf8 ('{' :: Codec.joined (f :: fs) ++ ['}']) =
      123 :: (utf8 (Codec.joined (f :: fs)) ++ [125]) := by
    rw [utf8_append, utf8_cons (by decide)]
    rfl
  have hfields := parseFields_joined h hs [] []
  obtain ⟨tail, htail⟩ := joined_quote f fs
  rw [htail, List.cons_append] at hfields
  unfold parseFlatObject
  rw [hbytes, htail, List.cons_append, skipWs_cons (by decide)]
  dsimp only
  rw [if_pos rfl, skipWs_cons (by decide), if_neg (by simp), hfields, Option.bind_some,
    List.append_nil]
  rfl

/-! ## Numbers -/

theorem lit_repr (n : Nat) :
    lit (Nat.repr n) = (Nat.toDigits 10 n).map fun c => UInt8.ofNat c.toNat := by
  unfold lit
  rw [Nat.toList_repr]
  exact utf8_ascii fun c hc => (numberChar_byte (isNumberChar_of_isDigit
    ((digits_toDigits n).2 c hc))).1

theorem digit_byte {c : Char} (h : Lib.Json.isDigit c = true) :
    isDigit (UInt8.ofNat c.toNat) = true ∧ (UInt8.ofNat c.toNat).toNat - 48 = digitVal c ∧
      isSpace (UInt8.ofNat c.toNat) = false ∧ UInt8.ofNat c.toNat ≠ 45 ∧
      UInt8.ofNat c.toNat ≠ 43 := by
  have hascii := (numberChar_byte (isNumberChar_of_isDigit h)).1
  have hall : ∀ n < 128, Lib.Json.isDigit (Char.ofNat n) = true →
      isDigit (UInt8.ofNat n) = true ∧ (UInt8.ofNat n).toNat - 48 = digitVal (Char.ofNat n) ∧
      isSpace (UInt8.ofNat n) = false ∧ UInt8.ofNat n ≠ 45 ∧ UInt8.ofNat n ≠ 43 := by
    decide
  have := hall _ hascii (by rwa [Char.ofNat_toNat])
  rwa [Char.ofNat_toNat] at this

/-- A number's text has no NUL in it. -/
theorem cStr_number {t : List Char} (h : Json.Number t) : cStr (utf8 t) = utf8 t := by
  have hchar := isNumberChar_of_number h
  unfold cStr
  rw [List.takeWhile_eq_self_iff, utf8_ascii fun c hc => (numberChar_byte (hchar c hc)).1]
  intro b hb
  obtain ⟨c, hc, rfl⟩ := List.mem_map.1 hb
  simpa using (numberChar_byte (hchar c hc)).2.2.2.2.2.1

theorem strtoull_digits {cs : List Char} (hne : cs ≠ []) (h : ∀ c ∈ cs, Lib.Json.isDigit c = true)
    (hval : natOfDigits cs ≤ u64Max) :
    strtoull (cs.map fun c => UInt8.ofNat c.toNat) = (some (natOfDigits cs), []) := by
  have hall : ∀ b ∈ cs.map (fun c => UInt8.ofNat c.toNat), isDigit b = true := by
    intro b hb
    obtain ⟨c, hc, rfl⟩ := List.mem_map.1 hb
    exact (digit_byte (h c hc)).1
  have hfold : ∀ (n : Nat), (cs.map fun c => UInt8.ofNat c.toNat).foldl
      (fun n b => n * 10 + (b.toNat - 48)) n = cs.foldl (fun n c => n * 10 + digitVal c) n := by
    clear hall hval hne
    induction cs with
    | nil => exact fun n => rfl
    | cons c cs ih =>
      intro n
      rw [List.forall_mem_cons] at h
      rw [List.map_cons, List.foldl_cons, List.foldl_cons, (digit_byte h.1).2.1]
      exact ih h.2 _
  obtain ⟨c, cs', rfl⟩ := List.exists_cons_of_ne_nil hne
  obtain ⟨-, -, hspace, h45, h43⟩ := digit_byte (h c List.mem_cons_self)
  rw [List.map_cons] at hall hfold ⊢
  unfold strtoull
  rw [List.dropWhile_cons_of_neg (by simp [hspace])]
  dsimp only
  split
  next heq => exact absurd (List.cons.inj heq).1 h45
  next heq => exact absurd (List.cons.inj heq).1 h43
  next =>
    rw [List.takeWhile_eq_self_iff.2 hall, List.dropWhile_eq_nil_iff.2 hall, hfold]
    change (if _ then _ else if natOfDigits (c :: cs') > u64Max then _ else _) = _
    rw [if_neg (by simp), if_neg (not_lt.2 hval)]
    rfl

theorem strtoull_repr {n : Nat} (h : n ≤ u64Max) : strtoull (lit (Nat.repr n)) = (some n, []) := by
  rw [lit_repr, strtoull_digits Nat.toDigits_ne_nil (digits_toDigits n).2]
  · rw [natOfDigits_toDigits]
  · rwa [natOfDigits_toDigits]

theorem parseU64_repr {n : Nat} (h : n ≤ u64Max) : parseU64 (lit (Nat.repr n)) = some n := by
  have hcstr : cStr (lit (Nat.repr n)) = lit (Nat.repr n) := cStr_number (number_repr n)
  have hbytes := lit_repr n
  obtain ⟨c, cs, hcs⟩ := List.exists_cons_of_ne_nil (Nat.toDigits_ne_nil (n := n) (b := 10))
  have h45 := (digit_byte ((digits_toDigits n).2 c (hcs ▸ List.mem_cons_self))).2.2.2.1
  rw [hcs, List.map_cons] at hbytes
  unfold parseU64
  rw [hcstr, strtoull_repr h, hbytes]
  simp [h45]

/-! ## A line of either writer -/

namespace CLib

variable {L : CLib} {C : Codec}

/-- The decimal texts of a finite rate are numbers, and both sides read both back. -/
structure Lawful (L : CLib) (C : Codec) : Prop where
  g17_number : ∀ x : F64, x.isFinite = true → Json.Number (L.formatG17 x).toList
  g17_short : ∀ x : F64, x.isFinite = true → (lit (L.formatG17 x)).length < 64
  g17_parse : ∀ x : F64, x.isFinite = true → ∃ n, C.number (L.formatG17 x).toList = some n ∧
    C.parseF64 (C.numberText n) = some x
  strtod_g17 : ∀ x : F64, x.isFinite = true → L.strtod (lit (L.formatG17 x)) = (x, [])
  strtod_debug : ∀ x : F64, x.isFinite = true → L.strtod (lit (C.debugF64 x)) = (x, [])

/-- The Rust side with the rate in the text of the C++ writer. -/
def printing (L : CLib) (C : Codec) : Codec := { C with debugF64 := L.formatG17 }

theorem printing_lawful (hC : C.Lawful) (hL : L.Lawful C) : (L.printing C).Lawful where
  sound := hC.sound
  flat := hC.flat
  number_nat := hC.number_nat
  debug_number := hL.g17_number
  debug_parse := hL.g17_parse

/-- The texts of the fields as the scanner reads them. -/
def values (C : Codec) (p : TreeMiner.FoundPayload) : List (List UInt8) :=
  [lit p.key, lit p.hashToVerify, lit p.account, lit p.kind.asStr,
    lit (Nat.repr p.memoryCost.toNat), lit p.worker, lit (Nat.repr p.attempts.toNat),
    utf8 (C.rateText p.hashesPerSecond), lit p.foundAtUtc]

theorem rateText_number (hC : C.Lawful) {x : F64} (hx : x.isFinite = true) :
    Json.Number (C.rateText x) := by
  unfold Codec.rateText
  rw [if_pos hx]
  exact hC.debug_number x hx

theorem parseFlatObject_line (hC : C.Lawful) {p : TreeMiner.FoundPayload}
    (hrate : p.hashesPerSecond.isFinite = true) (rate : Number) :
    parseFlatObject (C.lineBytes p) = some (scannedFields (C.fields p rate) (values C p)) := by
  have hnat : ∀ n, Scanned (Nat.repr n).toList (lit (Nat.repr n)) :=
    fun n => scanned_number (number_repr n)
  unfold Codec.lineBytes
  rw [Codec.serializeBody_eq p rate]
  refine parseFlatObject_joined (scanned_string _) ?_
  exact .cons (scanned_string _) (.cons (scanned_string _) (.cons (scanned_string _)
    (.cons (hnat _) (.cons (scanned_string _) (.cons (hnat _) (.cons
      (scanned_number (rateText_number hC hrate)) (.cons (scanned_string _) .nil)))))))

theorem payloadFromFields_line {p : TreeMiner.FoundPayload} (rate : Number)
    (hrate : L.parseDouble (utf8 (C.rateText p.hashesPerSecond)) = some p.hashesPerSecond) :
    L.payloadFromFields (scannedFields (C.fields p rate) (values C p)) = some (.of p) := by
  have hfields : scannedFields (C.fields p rate) (values C p) =
      [(lit "found_at_utc", lit p.foundAtUtc),
        (lit "hashes_per_second", utf8 (C.rateText p.hashesPerSecond)),
        (lit "attempts", lit (Nat.repr p.attempts.toNat)), (lit "worker", lit p.worker),
        (lit "memory_cost", lit (Nat.repr p.memoryCost.toNat)),
        (lit "kind", lit p.kind.asStr), (lit "account", lit p.account),
        (lit "hash_to_verify", lit p.hashToVerify), (lit "key", lit p.key)] := rfl
  have hcost := p.memoryCost.toNat_lt
  have hattempts := p.attempts.toNat_lt
  have hmemory : parseU64 (lit (Nat.repr p.memoryCost.toNat)) = some p.memoryCost.toNat :=
    parseU64_repr (by unfold u64Max; omega)
  have hcount : parseU64 (lit (Nat.repr p.attempts.toNat)) = some p.attempts.toNat :=
    parseU64_repr (by unfold u64Max; omega)
  have hbound : (some p.memoryCost.toNat).filter (fun n => decide (n ≤ u32Max)) =
      some p.memoryCost.toNat := Option.filter_some_pos (decide_eq_true (by unfold u32Max; omega))
  rw [hfields]
  unfold payloadFromFields lookup
  simp [List.lookup_cons, lit_beq, hmemory, hcount, hbound, hrate, FoundPayload.of]

theorem parseDouble_number {t : List Char} {x : F64} (ht : Json.Number t)
    (h : L.strtod (utf8 t) = (x, [])) : L.parseDouble (utf8 t) = some x := by
  obtain ⟨c, u, rfl, hc⟩ := number_cons ht
  have hne : (utf8 (c :: u)).isEmpty = false := by
    rw [utf8_cons (numberChar_byte (isNumberChar_of_number ht c List.mem_cons_self)).1]
    rfl
  unfold parseDouble
  rw [hne, cStr_number ht, h]
  rfl

theorem payload_line (hC : C.Lawful) {p : TreeMiner.FoundPayload}
    (hrate : p.hashesPerSecond.isFinite = true)
    (hstrtod : L.strtod (lit (C.debugF64 p.hashesPerSecond)) = (p.hashesPerSecond, [])) :
    (parseFlatObject (C.lineBytes p)).bind L.payloadFromFields = some (.of p) := by
  have hnumber := rateText_number hC hrate
  rw [parseFlatObject_line hC hrate (.int 0), Option.bind_some]
  refine payloadFromFields_line _ (parseDouble_number hnumber ?_)
  unfold Codec.rateText
  rw [if_pos hrate]
  exact hstrtod

theorem rateLiteral_finite (hL : L.Lawful C) {x : F64} (hx : x.isFinite = true) :
    L.rateLiteral x = utf8 ((L.printing C).rateText x) := by
  have hnumber := hL.g17_number x hx
  have hchar := isNumberChar_of_number hnumber
  obtain ⟨c, u, hcu, -⟩ := number_cons hnumber
  have hlen : ¬ ((lit (L.formatG17 x)).length = 0 ∨ 64 ≤ (lit (L.formatG17 x)).length) := by
    have hshort := hL.g17_short x hx
    have hpos : (lit (L.formatG17 x)).length ≠ 0 := by
      unfold lit
      rw [hcu, utf8_cons (numberChar_byte (hchar c (hcu ▸ List.mem_cons_self))).1]
      simp
    omega
  have hall : ((lit (L.formatG17 x)).all fun c => c != 110 && c != 105 && c != 78 && c != 73) =
      true := by
    unfold lit
    rw [utf8_ascii fun c hc => (numberChar_byte (hchar c hc)).1, List.all_eq_true]
    intro b hb
    obtain ⟨d, hd, rfl⟩ := List.mem_map.1 hb
    obtain ⟨h110, h105, h78, h73⟩ := (numberChar_byte (hchar d hd)).2.2.2.2.2.2
    simp [h110, h105, h78, h73]
  unfold rateLiteral Codec.rateText
  dsimp only
  rw [if_neg hlen, if_pos hall, if_pos hx]
  rfl

theorem appendJsonString_lit (out : List UInt8) (s : String) :
    appendJsonString out (lit s) = out ++ utf8 (jsonString s) := by
  unfold appendJsonString
  rw [utf8_jsonString]

/-- The C++ line is the Rust one with the rate in its own text. -/
theorem serialize_of (hL : L.Lawful C) {p : TreeMiner.FoundPayload}
    (hrate : p.hashesPerSecond.isFinite = true) :
    L.serialize (.of p) = (L.printing C).lineBytes p ++ [10] := by
  have hcolon : ∀ cs, utf8 (':' :: cs) = 58 :: utf8 cs := utf8_cons (by decide)
  have hcomma : ∀ cs, utf8 (',' :: cs) = 44 :: utf8 cs := utf8_cons (by decide)
  have hopen : ∀ cs, utf8 ('{' :: cs) = 123 :: utf8 cs := utf8_cons (by decide)
  have hclose : utf8 ['}'] = [125] := by decide
  have hbraces : lit "\x7b" = [123] ∧ lit "\x7d" = [125] := by decide
  unfold Codec.lineBytes
  rw [Codec.serializeBody_eq p (.int 0)]
  unfold serialize Codec.fields
  simp only [Codec.joined, appendField, appendRawField, FoundPayload.of, appendJsonString_lit,
    rateLiteral_finite hL hrate, utf8_append, hcolon, hcomma, hopen, hclose, if_true,
    Bool.false_eq_true, if_false, hbraces]
  simp [lit]

end CLib

/-! ## Both importers -/

section

variable {σ π ε : Type*}

/-- Finds handed to a journal one by one until it refuses one: the journal, how many it took
and whether it took all. -/
def handOver (append : σ → π → Except ε σ) : List π → σ → σ × Nat × Bool
  | [], j => (j, 0, true)
  | p :: ps, j =>
    match append j p with
    | .error _ => (j, 0, false)
    | .ok j =>
      let r := handOver append ps j
      (r.1, r.2.1 + 1, r.2.2)

end

section

variable {σ : Type*} {C : Codec} {L : CLib}

theorem importLines_rust (append : σ → TreeMiner.FoundPayload → Except JournalError σ)
    {lines : List (List UInt8)} {ps : List TreeMiner.FoundPayload}
    (h : List.Forall₂ (fun l p => C.payloadOf l = some p) lines ps) (j : σ) (stats : ImportStats) :
    TreeMiner.importLines C append (lines ++ [[]]) j stats = ((handOver append ps j).1,
      { stats with imported := stats.imported + (handOver append ps j).2.1 },
      (handOver append ps j).2.2) := by
  induction h generalizing j stats with
  | nil => rfl
  | @cons l p lines ps hl _ ih =>
    have hblank : ¬ (TreeMiner.trimLine l).isEmpty = true := by
      intro hempty
      unfold Codec.payloadOf at hl
      rw [if_pos hempty] at hl
      cases hl
    have hread : (fromUtf8 (TreeMiner.trimLine l)).bind C.parsePayload = some p := by
      unfold Codec.payloadOf at hl
      rwa [if_neg hblank] at hl
    rw [List.cons_append, TreeMiner.importLines, handOver, if_neg hblank, hread]
    dsimp only
    cases append j p with
    | error e => rfl
    | ok j' =>
      dsimp only
      rw [ih]
      simp only [Nat.add_assoc, Nat.add_comm 1]

theorem importLines_cpp (append : σ → FoundPayload → Except JournalError σ)
    {lines : List (List UInt8)} {ps : List FoundPayload}
    (h : List.Forall₂ (fun l p => (trimLine l).all (fun b => b = 32 || b = 9) = false ∧
      (parseFlatObject (trimLine l)).bind L.payloadFromFields = some p) lines ps) (j : σ)
    (stats : ImportStats) :
    importLines L append lines j stats = ((handOver append ps j).1,
      { stats with imported := stats.imported + (handOver append ps j).2.1 },
      (handOver append ps j).2.2) := by
  induction h generalizing j stats with
  | nil => rfl
  | @cons l p lines ps hl _ ih =>
    rw [importLines, handOver, hl.1, if_neg (by simp), hl.2]
    dsimp only
    cases append j p with
    | error e => rfl
    | ok j' =>
      dsimp only
      rw [ih]
      simp only [Nat.add_assoc, Nat.add_comm 1]

/-! ## Files of written lines -/

inductive Writer
  | rust
  | cpp
deriving DecidableEq, Repr

/-- The bytes a writer appends to the file for a find. -/
def written (L : CLib) (C : Codec) : Writer × TreeMiner.FoundPayload → List UInt8
  | (.rust, p) => utf8 (C.serialize p).toList
  | (.cpp, p) => L.serialize (.of p)

/-- The codec that prints a rate as the writer does. -/
def Writer.codec (L : CLib) (C : Codec) : Writer → Codec
  | .rust => C
  | .cpp => L.printing C

def lineOf (L : CLib) (C : Codec) (w : Writer × TreeMiner.FoundPayload) : List UInt8 :=
  (w.1.codec L C).lineBytes w.2

theorem codec_lawful (hC : C.Lawful) (hL : L.Lawful C) (w : Writer) : (w.codec L C).Lawful := by
  cases w with
  | rust => exact hC
  | cpp => exact CLib.printing_lawful hC hL

theorem written_eq (hL : L.Lawful C) {w : Writer × TreeMiner.FoundPayload}
    (hw : w.2.hashesPerSecond.isFinite = true) : written L C w = lineOf L C w ++ [10] := by
  obtain ⟨w, p⟩ := w
  cases w with
  | rust => exact Codec.utf8_serialize p
  | cpp => exact CLib.serialize_of hL hw

theorem payloadOf_lineOf (hC : C.Lawful) (hL : L.Lawful C) {w : Writer × TreeMiner.FoundPayload}
    (hw : w.2.hashesPerSecond.isFinite = true) : C.payloadOf (lineOf L C w) = some w.2 := by
  have hread := Codec.payloadOf_lineBytes (codec_lawful hC hL w.1) hw
  obtain ⟨w, p⟩ := w
  cases w with
  | rust => exact hread
  | cpp => exact hread

theorem cpp_lineOf (hC : C.Lawful) (hL : L.Lawful C) {w : Writer × TreeMiner.FoundPayload}
    (hw : w.2.hashesPerSecond.isFinite = true) :
    (trimLine (lineOf L C w)).all (fun b => b = 32 || b = 9) = false ∧
      (parseFlatObject (trimLine (lineOf L C w))).bind L.payloadFromFields = some (.of w.2) := by
  obtain ⟨mid, hmid⟩ := (w.1.codec L C).lineBytes_eq w.2
  have htrim : trimLine (lineOf L C w) = lineOf L C w := by
    unfold trimLine lineOf
    rw [hmid, ← List.cons_append, List.reverse_append, List.reverse_singleton,
      List.singleton_append, List.dropWhile_cons_of_neg (by decide), List.reverse_cons,
      List.reverse_reverse]
  have hstrtod : L.strtod (lit ((w.1.codec L C).debugF64 w.2.hashesPerSecond)) =
      (w.2.hashesPerSecond, []) := by
    obtain ⟨w, p⟩ := w
    cases w with
    | rust => exact hL.strtod_debug _ hw
    | cpp => exact hL.strtod_g17 _ hw
  rw [htrim]
  refine ⟨?_, CLib.payload_line (codec_lawful hC hL w.1) hw hstrtod⟩
  unfold lineOf
  rw [hmid]
  rfl

/-- The lines of a file of written lines. -/
theorem splitLines_written (hC : C.Lawful) (hL : L.Lawful C)
    {ws : List (Writer × TreeMiner.FoundPayload)}
    (h : ∀ w ∈ ws, w.2.hashesPerSecond.isFinite = true) :
    splitLines (ws.flatMap (written L C)) = ws.map (lineOf L C) ++ [[]] := by
  induction ws with
  | nil => rfl
  | cons w ws ih =>
    rw [List.forall_mem_cons] at h
    have hone : splitLines (lineOf L C w) = [lineOf L C w] :=
      List.splitOnP_eq_singleton fun x hx => by
        simpa using Codec.no_lineFeed (codec_lawful hC hL w.1) h.1 hx
    rw [List.flatMap_cons, written_eq hL h.1, List.append_assoc, List.singleton_append,
      splitLines_append, hone, ih h.2]
    rfl

theorem getLines_written (hC : C.Lawful) (hL : L.Lawful C)
    {ws : List (Writer × TreeMiner.FoundPayload)}
    (h : ∀ w ∈ ws, w.2.hashesPerSecond.isFinite = true) :
    getLines (ws.flatMap (written L C)) = ws.map (lineOf L C) := by
  unfold getLines
  rw [splitLines_written hC hL h]
  dsimp only
  rw [if_pos List.getLast?_concat, List.dropLast_concat]

/-- Of a file of lines of both writers, each importer hands its journal every find in order. -/
theorem sinks_mutually_importable {τ : Type*} (hC : C.Lawful) (hL : L.Lawful C)
    (ws : List (Writer × TreeMiner.FoundPayload))
    (hfinite : ∀ w ∈ ws, w.2.hashesPerSecond.isFinite = true) (s : Sink)
    (hfile : s.file = some (ws.flatMap (written L C))) (io : TreeMiner.ImportIo)
    (hread : io.readable = true) (append : σ → TreeMiner.FoundPayload → Except JournalError σ)
    (appendCpp : τ → FoundPayload → Except JournalError τ) (j : σ) (k : τ) :
    ((TreeMiner.importInto C append io s j).1 = (handOver append (ws.map (·.2)) j).1 ∧
      (TreeMiner.importInto C append io s j).2.2 =
        ⟨(handOver append (ws.map (·.2)) j).2.1, 0, true⟩) ∧
    (importInto L appendCpp ⟨io, none⟩ s k).1 =
        (handOver appendCpp (ws.map fun w => .of w.2) k).1 ∧
      (importInto L appendCpp ⟨io, none⟩ s k).2.2 =
        ⟨(handOver appendCpp (ws.map fun w => .of w.2) k).2.1, 0, true⟩ := by
  have hrust : List.Forall₂ (fun l p => C.payloadOf l = some p) (ws.map (lineOf L C))
      (ws.map (·.2)) :=
    List.forall₂_map_left_iff.2 (List.forall₂_map_right_iff.2 (List.forall₂_same.2 fun w hw =>
      payloadOf_lineOf hC hL (hfinite w hw)))
  have hcpp : List.Forall₂ (fun l p => (trimLine l).all (fun b => b = 32 || b = 9) = false ∧
      (parseFlatObject (trimLine l)).bind L.payloadFromFields = some p) (ws.map (lineOf L C))
      (ws.map fun w => .of w.2) :=
    List.forall₂_map_left_iff.2 (List.forall₂_map_right_iff.2 (List.forall₂_same.2 fun w hw =>
      cpp_lineOf hC hL (hfinite w hw)))
  constructor
  · unfold TreeMiner.importInto
    rw [hfile]
    dsimp only
    rw [hread, splitLines_written hC hL hfinite, importLines_rust append hrust]
    cases (handOver append (ws.map (·.2)) j).2.2 with
    | false => simp
    | true => cases io.renamed <;> simp
  · unfold importInto ImportIo.linesOf
    rw [hfile]
    dsimp only
    rw [hread, getLines_written hC hL hfinite, importLines_cpp appendCpp hcpp]
    cases (handOver appendCpp (ws.map fun w => FoundPayload.of w.2) k).2.2 with
    | false => simp
    | true => cases io.renamed <;> simp

end

/-! ## Two lines -/

/-- Zero is written without a point here. -/
def sampleG17 (x : F64) : List Char := if x.bits = 0 then ['0'] else Codec.sampleText x

def sampleCLib : CLib where
  formatG17 x := String.ofList (sampleG17 x)
  strtod bytes :=
    match fromUtf8 bytes with
    | some text => (Codec.sampleFloat text.toList, [])
    | none => (⟨0⟩, bytes)

theorem sampleFloat_sampleG17 (x : F64) : Codec.sampleFloat (sampleG17 x) = x := by
  unfold sampleG17
  split_ifs with hx
  · cases x
    cases hx
    rfl
  · exact Codec.sampleFloat_sampleText x

theorem sampleG17_number (x : F64) : Json.Number (sampleG17 x) := by
  unfold sampleG17
  split_ifs with hx
  · exact number_toDigits 0 (Or.inl rfl) (Or.inl rfl)
  · exact Codec.sampleText_number x

theorem sampleG17_length (x : F64) : (sampleG17 x).length < 64 := by
  have hbits : (Nat.toDigits 10 x.bits.toNat).length ≤ 20 := by
    have := x.bits.toNat_lt
    exact (Nat.length_toDigits_le_iff (by decide) (by decide)).2 (by omega)
  unfold sampleG17 Codec.sampleText
  split_ifs
  · decide
  · rw [List.length_append]
    simp only [List.length_cons, List.length_nil]
    omega

theorem strtod_text {cs : List Char} {x : F64} (h : Codec.sampleFloat cs = x) :
    sampleCLib.strtod (lit (String.ofList cs)) = (x, []) := by
  unfold sampleCLib
  dsimp only
  rw [lit_toList, fromUtf8_utf8]
  dsimp only
  rw [String.toList_ofList, h]

theorem sampleG17_parse {x : F64} (hx : x.isFinite = true) :
    ∃ n, Codec.sample.number (sampleG17 x) = some n ∧
      Codec.sample.parseF64 (Codec.sample.numberText n) = some x := by
  by_cases hzero : x.bits = 0
  · have hnumber : Codec.sample.number ['0'] = some (.int 0) := rfl
    refine ⟨.int 0, ?_, ?_⟩
    · unfold sampleG17
      rw [if_pos hzero, hnumber]
    · cases x
      cases hzero
      rfl
  · obtain ⟨n, hn, hparse⟩ := Codec.sample_lawful.debug_parse x hx
    have hdebug : Codec.sample.debugF64 x = String.ofList (Codec.sampleText x) := rfl
    rw [hdebug, String.toList_ofList] at hn
    refine ⟨n, ?_, hparse⟩
    unfold sampleG17
    rw [if_neg hzero, hn]

theorem formatG17_sample (x : F64) : sampleCLib.formatG17 x = String.ofList (sampleG17 x) := rfl

theorem sampleCLib_lawful : sampleCLib.Lawful Codec.sample where
  g17_number := by
    intro x _
    rw [formatG17_sample, String.toList_ofList]
    exact sampleG17_number x
  g17_short := by
    intro x _
    rw [formatG17_sample, lit_toList, utf8_ascii fun c hc =>
      (numberChar_byte (isNumberChar_of_number (sampleG17_number x) c hc)).1, List.length_map]
    exact sampleG17_length x
  g17_parse := by
    intro x hx
    rw [formatG17_sample, String.toList_ofList]
    exact sampleG17_parse hx
  strtod_g17 := by
    intro x _
    rw [formatG17_sample]
    exact strtod_text (sampleFloat_sampleG17 x)
  strtod_debug := by
    intro x _
    have hdebug : Codec.sample.debugF64 x = String.ofList (Codec.sampleText x) := rfl
    rw [hdebug]
    exact strtod_text (Codec.sampleFloat_sampleText x)

/-- A find with a quote, a line feed, a blank at the end and a letter that is not ASCII. -/
def sampleFind : TreeMiner.FoundPayload where
  key := "00\"\n"
  hashToVerify := "$argon2id$\\"
  account := "0x00"
  kind := .xuni
  memoryCost := 8
  worker := "größe "
  attempts := 18446744073709551615
  hashesPerSecond := ⟨0⟩
  foundAtUtc := "2026-01-01T00:00:00Z"

/-- A line of each writer, and each importer hands over the find twice. -/
theorem two_lines_imported :
    let file : Sink := ⟨some ([(.rust, sampleFind), (.cpp, sampleFind)].flatMap
      (written sampleCLib Codec.sample)), none⟩
    (TreeMiner.importInto Codec.sample (fun j p => .ok (j ++ [p])) ⟨true, true, true⟩ file []).1 =
        [sampleFind, sampleFind] ∧
      (importInto sampleCLib (fun j p => .ok (j ++ [p])) ⟨⟨true, true, true⟩, none⟩ file []).1 =
        [.of sampleFind, .of sampleFind] := by
  have h := sinks_mutually_importable Codec.sample_lawful sampleCLib_lawful
    [(.rust, sampleFind), (.cpp, sampleFind)] (by decide) ⟨some _, none⟩ rfl
    ⟨true, true, true⟩ rfl
    (fun j p => .ok (j ++ [p])) (fun j p => .ok (j ++ [p])) [] []
  exact ⟨h.1.1, h.2.1⟩

end TreeMiner.Cpp
