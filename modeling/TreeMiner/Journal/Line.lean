import TreeMiner.Journal.Fallback

/-! A line comes back to the find it was written for: the body is one JSON text, its
bytes hold no line feed, and the members read back are the fields. -/

namespace TreeMiner

open Lib Lib.Json

/-! ## Escapes -/

/-- A character is written with a short escape, with a numeric one, or as it is. -/
theorem escape_cases (c : Char) :
    (∃ e, escape c = ['\\', e] ∧ escapeUnit e = some c.toNat ∧ 0x20 ≤ e.toNat ∧
      c.toNat < 0x80) ∨
    (escape c = '\\' :: 'u' :: hexPad4 c.toNat ∧ c.toNat < 0x20) ∨
    (escape c = [c] ∧ c ≠ '"' ∧ c ≠ '\\' ∧ 0x20 ≤ c.toNat) := by
  unfold escape
  split_ifs with h1 h2 h3 h4 h5 h6 h7 h8
  · subst h1
    exact Or.inl ⟨'"', rfl, by decide, by decide, by decide⟩
  · subst h2
    exact Or.inl ⟨'\\', rfl, by decide, by decide, by decide⟩
  · subst h3
    exact Or.inl ⟨'b', rfl, by decide, by decide, by decide⟩
  · subst h4
    exact Or.inl ⟨'f', rfl, by decide, by decide, by decide⟩
  · subst h5
    exact Or.inl ⟨'n', rfl, by decide, by decide, by decide⟩
  · subst h6
    exact Or.inl ⟨'r', rfl, by decide, by decide, by decide⟩
  · subst h7
    exact Or.inl ⟨'t', rfl, by decide, by decide, by decide⟩
  · exact Or.inr (Or.inl ⟨rfl, h8⟩)
  · exact Or.inr (Or.inr ⟨rfl, h1, h2, by omega⟩)

theorem hexValue_hexDigit {n : Nat} (h : n < 16) : hexValue (hexDigit n) = some n := by
  revert n
  decide

theorem hexDigit_toNat {n : Nat} (h : n < 16) : 0x20 ≤ (hexDigit n).toNat := by
  revert n
  decide

theorem decodeString_unit {n : Nat} (h : n < 0xd800) (ps : List Piece) :
    decodeString (.unit n :: ps) = (decodeString ps).map (Char.ofNat n :: ·) := by
  have h1 : ¬ (0xd800 ≤ n ∧ n ≤ 0xdbff) := by omega
  have h2 : ¬ (0xdc00 ≤ n ∧ n ≤ 0xdfff) := by omega
  rw [decodeString.eq_def]
  simp only [h1, h2, if_false]

/-- A written character is read as one piece, which decodes to it. -/
theorem escape_read (c : Char) : ∃ p : Piece,
    (∀ s ps r, StrBody s ps r → StrBody (escape c ++ s) (p :: ps) r) ∧
    ∀ ps, decodeString (p :: ps) = (decodeString ps).map (c :: ·) := by
  have hunit : c.toNat < 0x80 → ∀ ps,
      decodeString (.unit c.toNat :: ps) = (decodeString ps).map (c :: ·) := by
    intro hc ps
    rw [decodeString_unit (by omega), Char.ofNat_toNat]
  rcases escape_cases c with ⟨e, he, hu, -, hc⟩ | ⟨he, hc⟩ | ⟨he, hq, hb, hc⟩
  · refine ⟨.unit c.toNat, fun s ps r h => ?_, hunit hc⟩
    rw [he]
    exact .escape hu h
  · refine ⟨.unit c.toNat, fun s ps r h => ?_, hunit (by omega)⟩
    have hdigit := fun n => hexValue_hexDigit (Nat.mod_lt n (by decide : 0 < 16))
    have hval : ((c.toNat / 4096 % 16 * 16 + c.toNat / 256 % 16) * 16 + c.toNat / 16 % 16) * 16 +
        c.toNat % 16 = c.toNat := by omega
    have := StrBody.unicode (hdigit (c.toNat / 4096)) (hdigit (c.toNat / 256))
      (hdigit (c.toNat / 16)) (hdigit c.toNat) h
    rw [hval] at this
    rw [he]
    exact this
  · refine ⟨.plain c, fun s ps r h => ?_, fun ps => rfl⟩
    rw [he]
    exact .plain hc hq hb h

theorem strBody_escaped (cs : List Char) : ∃ ps, decodeString ps = some cs ∧
    ∀ rest, StrBody (cs.flatMap escape ++ '"' :: rest) ps rest := by
  induction cs with
  | nil => exact ⟨[], rfl, .close⟩
  | cons c cs ih =>
    obtain ⟨ps, hdec, hps⟩ := ih
    obtain ⟨p, hread, hp⟩ := escape_read c
    refine ⟨p :: ps, ?_, fun rest => ?_⟩
    · rw [hp, hdec, Option.map_some]
    · rw [List.flatMap_cons, List.append_assoc]
      exact hread _ _ _ (hps rest)

/-! ## No control character -/

def Printable (cs : List Char) : Prop := ∀ c ∈ cs, 0x20 ≤ c.toNat

theorem printable_append {a b : List Char} (ha : Printable a) (hb : Printable b) :
    Printable (a ++ b) := by
  intro c hc
  rcases List.mem_append.1 hc with hc | hc
  · exact ha c hc
  · exact hb c hc

theorem printable_cons {c : Char} {b : List Char} (hc : 0x20 ≤ c.toNat) (hb : Printable b) :
    Printable (c :: b) := by
  intro d hd
  rcases List.mem_cons.1 hd with rfl | hd
  · exact hc
  · exact hb d hd

theorem printable_nil : Printable [] := by
  intro c hc
  cases hc

theorem printable_escape (c : Char) : Printable (escape c) := by
  rcases escape_cases c with ⟨e, he, -, hp, -⟩ | ⟨he, -⟩ | ⟨he, -, -, hp⟩
  · rw [he]
    exact printable_cons (by decide) (printable_cons hp printable_nil)
  · have hdigit := fun n => hexDigit_toNat (Nat.mod_lt n (by decide : 0 < 16))
    rw [he]
    exact printable_cons (by decide) (printable_cons (by decide) (printable_cons (hdigit _)
      (printable_cons (hdigit _) (printable_cons (hdigit _) (printable_cons (hdigit _)
        printable_nil)))))
  · rw [he]
    exact printable_cons hp printable_nil

theorem printable_jsonString (s : String) : Printable (jsonString s) := by
  refine printable_cons (by decide) (printable_append ?_ (printable_cons (by decide) printable_nil))
  intro c hc
  obtain ⟨d, -, hd⟩ := List.mem_flatMap.1 hc
  exact printable_escape d c hd

theorem printable_number {t : List Char} (h : Json.Number t) : Printable t := by
  intro c hc
  have hn := isNumberChar_of_number h c hc
  unfold isNumberChar isDigit at hn
  simp only [Bool.or_eq_true, Bool.and_eq_true, decide_eq_true_eq] at hn
  rcases hn with ((((⟨hd, -⟩ | rfl) | rfl) | rfl) | rfl) | rfl
  · exact le_trans (by decide) (show ('0' : Char).toNat ≤ c.toNat from hd)
  all_goals decide

/-! ## Members -/

namespace Codec

variable {C : Codec}

/-- The text spells the value in front of anything. -/
def Spelled (C : Codec) (text : List Char) (v : Value) : Prop :=
  Printable text ∧ ∃ j, (∀ r, Json.Value (text ++ r) j r) ∧ C.scalar j = some v

theorem spelled_string (s : String) : C.Spelled (jsonString s) (.string s) := by
  obtain ⟨ps, hdec, hps⟩ := strBody_escaped s.toList
  refine ⟨printable_jsonString s, .string ps, fun r => ?_, ?_⟩
  · have := Json.Value.string (hps r)
    simpa [jsonString] using this
  · simp only [scalar, hdec, Option.map_some, String.ofList_toList]

theorem spelled_number {text : List Char} {n : Number} (ht : Json.Number text)
    (hn : C.number text = some n) : C.Spelled text (.number n) := by
  refine ⟨printable_number ht, .number text, fun r => .number ht r, ?_⟩
  simp only [scalar, hn, Option.map_some]

theorem spelled_nat (hC : C.Lawful) {n : Nat} (h : n ≤ u64Max) :
    C.Spelled (Nat.repr n).toList (.number (.int n)) :=
  spelled_number (number_repr n) (hC.number_nat n h)

/-- A field as the line writes it: its name, its text and the value the text spells. -/
structure Field where
  key : String
  text : List Char
  value : Value

def Field.kv (f : Field) : String × Value := (f.key, f.value)

/-- The fields of an object without its braces. -/
def joined : List Field → List Char
  | [] => []
  | [f] => jsonString f.key ++ ':' :: f.text
  | f :: fs => jsonString f.key ++ ':' :: f.text ++ ',' :: joined fs

theorem printable_joined {fs : List Field} (h : ∀ f ∈ fs, C.Spelled f.text f.value) :
    Printable (joined fs) := by
  induction fs with
  | nil => exact printable_nil
  | cons f fs ih =>
    have hf := (h f List.mem_cons_self).1
    have hfield : Printable (jsonString f.key ++ ':' :: f.text) :=
      printable_append (printable_jsonString _) (printable_cons (by decide) hf)
    rcases fs with _ | ⟨g, fs⟩
    · exact hfield
    · exact printable_append hfield
        (printable_cons (by decide) (ih fun x hx => h x (List.mem_cons_of_mem _ hx)))

theorem ws_refl (s : List Char) : Ws s s := ⟨[], rfl, by simp⟩

theorem name_read (key : String) (rest : List Char) : ∃ k s,
    jsonString key ++ rest = '"' :: s ∧ StrBody s k rest ∧ decodeString k = some key.toList := by
  obtain ⟨ps, hdec, hps⟩ := strBody_escaped key.toList
  refine ⟨ps, _, ?_, hps rest, hdec⟩
  simp [jsonString]

/-- The joined fields are the members of one object, read field by field. -/
theorem members_joined {f : Field} {fs : List Field}
    (h : ∀ g ∈ f :: fs, C.Spelled g.text g.value) (r : List Char) : ∃ ms,
    Members (joined (f :: fs) ++ '}' :: r) ms r ∧
      List.Forall₂ C.Reads ms ((f :: fs).map Field.kv) := by
  induction fs generalizing f with
  | nil =>
    obtain ⟨-, j, hj, hv⟩ := h f List.mem_cons_self
    obtain ⟨k, s, hs, hk, hdec⟩ := name_read f.key (':' :: (f.text ++ '}' :: r))
    refine ⟨[(k, j)], ?_, .cons ⟨hdec, hv⟩ .nil⟩
    have htext : joined [f] ++ '}' :: r = '"' :: s := by
      rw [← hs]
      simp [joined]
    rw [htext]
    exact .last (ws_refl _) hk (ws_refl _) (ws_refl _) (hj _) (ws_refl _)
  | cons g fs ih =>
    obtain ⟨ms, hms, hreads⟩ := ih fun x hx => h x (List.mem_cons_of_mem _ hx)
    obtain ⟨-, j, hj, hv⟩ := h f List.mem_cons_self
    obtain ⟨k, s, hs, hk, hdec⟩ :=
      name_read f.key (':' :: (f.text ++ ',' :: (joined (g :: fs) ++ '}' :: r)))
    refine ⟨(k, j) :: ms, ?_, .cons ⟨hdec, hv⟩ hreads⟩
    have htext : joined (f :: g :: fs) ++ '}' :: r = '"' :: s := by
      rw [← hs]
      simp [joined]
    rw [htext]
    exact .cons (ws_refl _) hk (ws_refl _) (ws_refl _) (hj _) (ws_refl _) hms

/-- An object of spelled fields with different names is read back as their map. -/
theorem fromStr_joined (hC : C.Lawful) {f : Field} {fs : List Field}
    (h : ∀ g ∈ f :: fs, C.Spelled g.text g.value) :
    C.fromStr (String.ofList ('{' :: joined (f :: fs) ++ ['}'])) =
      some (Value.ofMembers ((f :: fs).map Field.kv)) := by
  obtain ⟨ms, hms, hreads⟩ := members_joined h []
  have htext : Text ('{' :: joined (f :: fs) ++ ['}']) (.object ms) :=
    ⟨_, _, ws_refl _, .object hms, ws_refl []⟩
  rw [← String.toList_ofList (l := '{' :: joined (f :: fs) ++ ['}'])] at htext
  exact hC.flat htext hreads

/-! ## The line of a find -/

/-- The fields of a find, with the number its hash rate is read as. -/
def fields (C : Codec) (p : FoundPayload) (rate : Number) : List Field :=
  [⟨"key", jsonString p.key, .string p.key⟩,
    ⟨"hash_to_verify", jsonString p.hashToVerify, .string p.hashToVerify⟩,
    ⟨"account", jsonString p.account, .string p.account⟩,
    ⟨"kind", jsonString p.kind.asStr, .string p.kind.asStr⟩,
    ⟨"memory_cost", (Nat.repr p.memoryCost.toNat).toList, .number (.int p.memoryCost.toNat)⟩,
    ⟨"worker", jsonString p.worker, .string p.worker⟩,
    ⟨"attempts", (Nat.repr p.attempts.toNat).toList, .number (.int p.attempts.toNat)⟩,
    ⟨"hashes_per_second", C.rateText p.hashesPerSecond, .number rate⟩,
    ⟨"found_at_utc", jsonString p.foundAtUtc, .string p.foundAtUtc⟩]

theorem serializeBody_eq (p : FoundPayload) (rate : Number) :
    C.serializeBody p = '{' :: joined (C.fields p rate) ++ ['}'] := by
  simp [serializeBody, pushField, pushRawField, pushJsonString, fields, joined]

theorem fields_keys (p : FoundPayload) (rate : Number) :
    (((C.fields p rate).map Field.kv).map Prod.fst).Nodup := by
  simp only [fields, List.map_cons, List.map_nil, Field.kv]
  decide

theorem fields_spelled (hC : C.Lawful) {p : FoundPayload}
    (hrate : p.hashesPerSecond.isFinite = true) {rate : Number}
    (hn : C.number (C.debugF64 p.hashesPerSecond).toList = some rate) :
    ∀ f ∈ C.fields p rate, C.Spelled f.text f.value := by
  have hcost : p.memoryCost.toNat ≤ u64Max := by
    have := p.memoryCost.toNat_lt
    unfold u64Max
    omega
  have hattempts : p.attempts.toNat ≤ u64Max := by
    have := p.attempts.toNat_lt
    unfold u64Max
    omega
  have hratetext : C.Spelled (C.rateText p.hashesPerSecond) (.number rate) := by
    unfold rateText
    rw [if_pos hrate]
    exact spelled_number (hC.debug_number _ hrate) hn
  simp only [fields, List.forall_mem_cons, List.not_mem_nil, IsEmpty.forall_iff, implies_true,
    and_true]
  exact ⟨spelled_string _, spelled_string _, spelled_string _, spelled_string _,
    spelled_nat hC hcost, spelled_string _, spelled_nat hC hattempts, hratetext,
    spelled_string _⟩

theorem numberText_nat (n : Nat) : C.numberText (.int n) = Nat.repr n := rfl

theorem parsePayload_serializeBody (hC : C.Lawful) {p : FoundPayload}
    (hrate : p.hashesPerSecond.isFinite = true) :
    C.parsePayload (String.ofList (C.serializeBody p)) = some p := by
  obtain ⟨rate, hn, hparse⟩ := hC.debug_parse _ hrate
  have hread := fromStr_joined hC (fields_spelled hC hrate hn)
  obtain ⟨m, hm, hin, hsub⟩ := Value.ofMembers_object _ (fields_keys (C := C) p rate)
  have hflat : (m.any fun x => x.2.isObject || x.2.isArray) = false := by
    rw [List.any_eq_false]
    intro x hx
    have := hsub x hx
    simp only [fields, List.map_cons, List.map_nil, Field.kv, List.mem_cons, List.not_mem_nil,
      or_false] at this
    rcases this with rfl | rfl | rfl | rfl | rfl | rfl | rfl | rfl | rfl <;>
      exact Bool.false_ne_true
  have hbody : C.fromStr (String.ofList (C.serializeBody p)) = some (.object m) := by
    rw [serializeBody_eq p rate, ← hm]
    exact hread
  simp only [fields, List.map_cons, List.map_nil, Field.kv, List.forall_mem_cons] at hin
  obtain ⟨hkey, hhash, haccount, hkind, hcost, hworker, hattempts, hrate', hfound, -⟩ := hin
  have hcost' : parseUnsigned u32Max (Nat.repr p.memoryCost.toNat) = some p.memoryCost.toNat :=
    parseUnsigned_repr (by have := p.memoryCost.toNat_lt; unfold u32Max; omega)
  have hattempts' : parseUnsigned u64Max (Nat.repr p.attempts.toNat) = some p.attempts.toNat :=
    parseUnsigned_repr (by have := p.attempts.toNat_lt; unfold u64Max; omega)
  unfold parsePayload memberText
  simp [hbody, Value.asObject, hflat, hkey, hhash, haccount, hkind, hcost, hworker, hattempts,
    hrate', hfound, numberText_nat, hcost', hattempts', hparse]

end Codec

/-! ## Bytes -/

theorem utf8_append (a b : List Char) : utf8 (a ++ b) = utf8 a ++ utf8 b := List.flatMap_append

theorem fromUtf8_utf8 (cs : List Char) : fromUtf8 (utf8 cs) = some (String.ofList cs) := by
  have hbytes : (utf8 cs).toByteArray = (String.ofList cs).toByteArray :=
    String.toByteArray_ofList.symm
  unfold fromUtf8 String.fromUTF8?
  rw [hbytes, dif_pos (String.ofList cs).isValidUTF8]
  rfl

/-- A byte of a character's encoding is the character itself or not ASCII. -/
theorem byte_of_utf8EncodeChar {c : Char} {b : UInt8} (h : b ∈ String.utf8EncodeChar c) :
    b.toNat = c.toNat ∨ 0x80 ≤ b.toNat := by
  have hc : c.val.toNat = c.toNat := rfl
  unfold String.utf8EncodeChar at h
  rw [hc] at h
  dsimp only at h
  split_ifs at h with h1 h2 h3
  · rw [List.mem_singleton.1 h, UInt8.toNat_ofNat']
    omega
  · simp only [List.mem_cons, List.not_mem_nil, or_false] at h
    rcases h with rfl | rfl <;> rw [UInt8.toNat_ofNat'] <;> omega
  · simp only [List.mem_cons, List.not_mem_nil, or_false] at h
    rcases h with rfl | rfl | rfl <;> rw [UInt8.toNat_ofNat'] <;> omega
  · simp only [List.mem_cons, List.not_mem_nil, or_false] at h
    rcases h with rfl | rfl | rfl | rfl <;> rw [UInt8.toNat_ofNat'] <;> omega

theorem byte_of_printable {cs : List Char} (h : Printable cs) {b : UInt8} (hb : b ∈ utf8 cs) :
    0x20 ≤ b.toNat := by
  obtain ⟨c, hc, hbc⟩ := List.mem_flatMap.1 hb
  have := h c hc
  rcases byte_of_utf8EncodeChar hbc with hb | hb
  · omega
  · omega

/-- A line between two visible bytes is not trimmed. -/
theorem trimLine_visible {a b : UInt8} (ha : 0x20 < a.toNat) (hb : 0x20 < b.toNat)
    (mid : List UInt8) : trimLine (a :: (mid ++ [b])) = a :: (mid ++ [b]) := by
  have hne : ∀ {x : UInt8} (n : UInt8), 0x20 < x.toNat → n.toNat ≤ 0x20 → x ≠ n := by
    rintro x n hx hn rfl
    omega
  unfold trimLine
  rw [← List.cons_append, List.reverse_append, List.reverse_singleton, List.singleton_append,
    List.dropWhile_cons_of_neg, List.reverse_cons, List.reverse_reverse, List.cons_append,
    List.dropWhile_cons_of_neg]
  · simp [hne 32 ha (by decide), hne 9 ha (by decide)]
  · simp [hne 13 hb (by decide), hne 10 hb (by decide), hne 32 hb (by decide),
      hne 9 hb (by decide)]

namespace Codec

variable {C : Codec}

/-- What the importer makes of one raw line; `none` where it skips it. -/
def payloadOf (C : Codec) (raw : List UInt8) : Option FoundPayload :=
  if (trimLine raw).isEmpty then none else (fromUtf8 (trimLine raw)).bind C.parsePayload

def lineBytes (C : Codec) (p : FoundPayload) : List UInt8 := utf8 (C.serializeBody p)

theorem utf8_serialize (p : FoundPayload) :
    utf8 (C.serialize p).toList = C.lineBytes p ++ [10] := by
  unfold serialize lineBytes
  rw [String.toList_ofList, utf8_append]
  rfl

theorem lineBytes_eq (p : FoundPayload) :
    ∃ mid, C.lineBytes p = 123 :: (mid ++ [125]) := by
  refine ⟨utf8 (joined (C.fields p (.int 0))), ?_⟩
  unfold lineBytes
  rw [serializeBody_eq p (.int 0), utf8_append]
  rfl

theorem no_lineFeed (hC : C.Lawful) {p : FoundPayload} (hrate : p.hashesPerSecond.isFinite = true)
    {b : UInt8} (hb : b ∈ C.lineBytes p) : b ≠ 10 := by
  obtain ⟨rate, hn, -⟩ := hC.debug_parse _ hrate
  have hprint : Printable (C.serializeBody p) := by
    rw [serializeBody_eq p rate]
    exact printable_append (printable_cons (by decide)
      (printable_joined (fields_spelled hC hrate hn))) (printable_cons (by decide) printable_nil)
  rintro rfl
  exact absurd (byte_of_printable hprint hb) (by decide)

theorem payloadOf_lineBytes (hC : C.Lawful) {p : FoundPayload}
    (hrate : p.hashesPerSecond.isFinite = true) : C.payloadOf (C.lineBytes p) = some p := by
  obtain ⟨mid, hmid⟩ := C.lineBytes_eq p
  have htrim : trimLine (C.lineBytes p) = C.lineBytes p := by
    rw [hmid]
    exact trimLine_visible (by decide) (by decide) mid
  have hne : (C.lineBytes p).isEmpty = false := by
    rw [hmid]
    rfl
  unfold payloadOf
  rw [htrim, hne]
  unfold lineBytes
  rw [fromUtf8_utf8]
  exact parsePayload_serializeBody hC hrate

end Codec

end TreeMiner
