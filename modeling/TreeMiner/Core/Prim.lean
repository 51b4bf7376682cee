import Mathlib.Data.Char
import Mathlib.Data.Int.Order.Basic

/-! The Rust primitives the crates lean on: `i64` saturation, the ASCII classes of
`u8`/`char`, and hex text. A Rust `&str` is a `String`; a loop over `as_bytes()` that
compares with ASCII bytes only is a recursion over its characters. -/

namespace TreeMiner

def i64Max : Int := 9223372036854775807

def i64Min : Int := -9223372036854775808

def clampI64 (x : Int) : Int := max i64Min (min i64Max x)

/-- `i64::saturating_add` -/
def satAdd (a b : Int) : Int := clampI64 (a + b)

/-- `i64::saturating_sub` -/
def satSub (a b : Int) : Int := clampI64 (a - b)

def InI64 (x : Int) : Prop := i64Min ≤ x ∧ x ≤ i64Max

instance (x : Int) : Decidable (InI64 x) := inferInstanceAs (Decidable (_ ∧ _))

/-- The result of an `i64` operation, or none where it overflows. -/
def checkedI64 (x : Int) : Option Int := if InI64 x then some x else none

theorem checkedI64_of_in {x : Int} (h : InI64 x) : checkedI64 x = some x := if_pos h

theorem checkedI64_eq_some_iff {x v : Int} : checkedI64 x = some v ↔ InI64 x ∧ x = v := by
  unfold checkedI64
  split_ifs with h <;> simp [h]

theorem checkedI64_bind_eq_some_iff {x v : Int} {f : Int → Option Int} :
    (checkedI64 x).bind f = some v ↔ InI64 x ∧ f x = some v := by
  unfold checkedI64
  split_ifs with h <;> simp [h]

def isAsciiDigit (c : Char) : Bool := '0' ≤ c && c ≤ '9'

def isAsciiHexdigit (c : Char) : Bool :=
  isAsciiDigit c || ('a' ≤ c && c ≤ 'f') || ('A' ≤ c && c ≤ 'F')

def isAsciiAlphanumeric (c : Char) : Bool :=
  isAsciiDigit c || ('a' ≤ c && c ≤ 'z') || ('A' ≤ c && c ≤ 'Z')

/-- `u8::is_ascii_whitespace`: no vertical tab. -/
def isAsciiWhitespace (c : Char) : Bool :=
  c = ' ' || c = '\t' || c = '\n' || c = '\x0c' || c = '\r'

/-- `char::is_whitespace`, the Unicode `White_Space` property. -/
def isWhitespace (c : Char) : Bool :=
  (0x09 ≤ c.toNat && c.toNat ≤ 0x0d) || c.toNat = 0x20 || c.toNat = 0x85 || c.toNat = 0xa0 ||
  c.toNat = 0x1680 || (0x2000 ≤ c.toNat && c.toNat ≤ 0x200a) || c.toNat = 0x2028 ||
  c.toNat = 0x2029 || c.toNat = 0x202f || c.toNat = 0x205f || c.toNat = 0x3000

/-- The value of a digit character, meaningful under `isAsciiDigit`. -/
def digitVal (c : Char) : Nat := c.toNat - '0'.toNat

/-- `char::to_digit(16)` -/
def toDigit16 (c : Char) : Option Nat :=
  if isAsciiDigit c then some (digitVal c)
  else if 'a' ≤ c && c ≤ 'f' then some (c.toNat - 'a'.toNat + 10)
  else if 'A' ≤ c && c ≤ 'F' then some (c.toNat - 'A'.toNat + 10)
  else none

/-- `u32::MAX` and `u64::MAX` as the bounds of the digit parsers. -/
def u32Max : Nat := 4294967295

def u64Max : Nat := 18446744073709551615

/-- `s.trim().is_empty()` -/
def isTrimEmpty (s : String) : Bool := s.toList.all isWhitespace

/-- `haystack.contains(needle)` for texts. -/
def containsText (haystack needle : String) : Bool :=
  go needle.toList haystack.toList
where
  go (needle : List Char) : List Char → Bool
    | [] => needle.isEmpty
    | c :: cs => needle.isPrefixOf (c :: cs) || go needle cs

/-- The decimal digits `std` accepts at the front of an unsigned integer, with its value. -/
def natOfDigits (ds : List Char) : Nat := ds.foldl (fun n c => n * 10 + digitVal c) 0

/-- `text.parse::<u32>()` and `text.parse::<u64>()`: an optional `+`, one digit or more. -/
def parseUnsigned (bound : Nat) (text : String) : Option Nat :=
  let ds := match text.toList with
    | '+' :: ds => ds
    | ds => ds
  if !ds.isEmpty && ds.all isAsciiDigit && decide (natOfDigits ds ≤ bound) then
    some (natOfDigits ds)
  else none

/-- `text.parse::<i64>()`: an optional sign, one digit or more, in range. -/
def parseI64 (text : List Char) : Option Int :=
  let (neg, ds) := match text with
    | '-' :: ds => (true, ds)
    | '+' :: ds => (false, ds)
    | ds => (false, ds)
  let v : Int := if neg then -(natOfDigits ds : Int) else natOfDigits ds
  if !ds.isEmpty && ds.all isAsciiDigit && decide (i64Min ≤ v) && decide (v ≤ i64Max) then
    some v
  else none

theorem natOfDigits_toDigits (n : Nat) : natOfDigits (Nat.toDigits 10 n) = n := by
  have h := Nat.ofDigitChars_ten_toDigits (n := n)
  rw [Nat.ofDigitChars_eq_foldl] at h
  unfold natOfDigits digitVal
  simpa only [Nat.mul_comm 10] using h

theorem isAsciiDigit_of_mem_toDigits {c : Char} {n : Nat} (h : c ∈ Nat.toDigits 10 n) :
    isAsciiDigit c = true := by
  have hd := Nat.isDigit_of_mem_toDigits (by decide) (by decide) h
  unfold Char.isDigit at hd
  unfold isAsciiDigit
  rw [Bool.and_eq_true, decide_eq_true_eq, decide_eq_true_eq] at hd ⊢
  exact hd

theorem not_mem_repr_of_not_digit {c : Char} (hc : isAsciiDigit c = false) (n : Nat) :
    c ∉ (Nat.repr n).toList := by
  intro h
  rw [Nat.toList_repr] at h
  rw [isAsciiDigit_of_mem_toDigits h] at hc
  cases hc

/-- The integer a decimal text with an optional minus stands for. -/
def intOfDigits : List Char → Int
  | '-' :: ds => -(natOfDigits ds : Int)
  | ds => natOfDigits ds

theorem intOfDigits_toString (n : Int) : intOfDigits (toString n).toList = n := by
  cases n with
  | ofNat n =>
    have htext : (toString (Int.ofNat n)).toList = Nat.toDigits 10 n := Nat.toList_repr
    rw [htext]
    unfold intOfDigits
    split
    · rename_i ds hds
      have hdash : isAsciiDigit '-' = true :=
        isAsciiDigit_of_mem_toDigits (hds ▸ List.mem_cons_self)
      exact absurd hdash (by decide)
    · rw [natOfDigits_toDigits]
      rfl
  | negSucc n =>
    have htext : (toString (Int.negSucc n)).toList = '-' :: Nat.toDigits 10 (n + 1) := by
      rw [show toString (Int.negSucc n) = "-" ++ Nat.repr (n + 1) from rfl, String.toList_append,
        Nat.toList_repr]
      rfl
    rw [htext, intOfDigits, natOfDigits_toDigits]
    rfl

theorem parseUnsigned_of_digits {bound : Nat} {ds : List Char} (hne : ds ≠ [])
    (hdigits : ds.all isAsciiDigit = true) (hb : natOfDigits ds ≤ bound) :
    parseUnsigned bound (String.ofList ds) = some (natOfDigits ds) := by
  obtain ⟨c, cs, rfl⟩ := List.exists_cons_of_ne_nil hne
  have hplus : c ≠ '+' := by
    rintro rfl
    rw [List.all_cons, show isAsciiDigit '+' = false from by decide] at hdigits
    cases hdigits
  unfold parseUnsigned
  rw [String.toList_ofList]
  simp [hplus, hdigits, hb]

theorem parseI64_of_digits {ds : List Char} (hne : ds ≠ []) (hdigits : ds.all isAsciiDigit = true)
    (hb : (natOfDigits ds : Int) ≤ i64Max) : parseI64 ds = some (natOfDigits ds : Int) := by
  obtain ⟨c, cs, rfl⟩ := List.exists_cons_of_ne_nil hne
  have hsign : c ≠ '+' ∧ c ≠ '-' := by
    constructor <;> rintro rfl <;> rw [List.all_cons] at hdigits <;> revert hdigits <;>
      simp [show isAsciiDigit '+' = false from by decide,
        show isAsciiDigit '-' = false from by decide]
  have hlow : i64Min ≤ natOfDigits (c :: cs) := by unfold i64Min; omega
  unfold parseI64
  simp [hsign, hdigits, hb, hlow]

/-- `text.parse()` of what `to_string()` wrote. -/
theorem parseUnsigned_repr {bound n : Nat} (h : n ≤ bound) :
    parseUnsigned bound (Nat.repr n) = some n := by
  have hdigits : (Nat.toDigits 10 n).all isAsciiDigit = true :=
    List.all_eq_true.2 fun d hd => isAsciiDigit_of_mem_toDigits hd
  have hval := natOfDigits_toDigits n
  rw [Nat.repr_eq_ofList_toDigits,
    parseUnsigned_of_digits Nat.toDigits_ne_nil hdigits (by rw [hval]; exact h), hval]

def hexDigit (n : Nat) : Char := if n < 10 then Char.ofNat (48 + n) else Char.ofNat (87 + n)

/-- `hex::encode`: lower case, two characters a byte. -/
def hexEncode (bytes : List UInt8) : String :=
  String.ofList (bytes.flatMap fun b => [hexDigit (b.toNat / 16), hexDigit (b.toNat % 16)])

/-- `hex::decode`: either case, `none` on an odd length or another character. -/
def hexDecode : List Char → Option (List UInt8)
  | [] => some []
  | [_] => none
  | hi :: lo :: rest => do
    let h ← toDigit16 hi
    let l ← toDigit16 lo
    let bs ← hexDecode rest
    some (UInt8.ofNat (h * 16 + l) :: bs)

theorem utf8ByteSize_ascii {cs : List Char} (h : ∀ c ∈ cs, c.toNat < 128) :
    (String.ofList cs).utf8ByteSize = cs.length := by
  have hone : ∀ c ∈ cs, (String.utf8EncodeChar c).length = 1 := by
    intro c hc
    rw [String.length_utf8EncodeChar, Char.utf8Size_eq_one_iff, UInt32.le_iff_toNat_le]
    have := h c hc
    change c.toNat ≤ 127
    omega
  have hbytes : (String.ofList cs).toByteArray = (cs.flatMap String.utf8EncodeChar).toByteArray :=
    String.toByteArray_ofList
  rw [← String.size_toByteArray, hbytes, List.size_toByteArray, List.length_flatMap,
    List.map_congr_left hone]
  rw [List.map_const', List.sum_replicate_nat, Nat.mul_one]

theorem utf8ByteSize_of_ascii {s : String} (h : ∀ c ∈ s.toList, c.toNat < 128) :
    s.utf8ByteSize = s.toList.length := by
  have hsize := utf8ByteSize_ascii h
  rwa [String.ofList_toList] at hsize

theorem ofNat_toNat_of_lt {n : Nat} (h : n < 0xd800) : (Char.ofNat n).toNat = n := by
  have hvalid : n.isValidChar := Or.inl h
  unfold Char.ofNat
  rw [dif_pos hvalid]
  rfl

theorem char_le_iff (a b : Char) : a ≤ b ↔ a.toNat ≤ b.toNat := by
  rw [Char.le_def, UInt32.le_iff_toNat_le]
  rfl

theorem toNat_of_isAsciiAlphanumeric {c : Char} (h : isAsciiAlphanumeric c = true) :
    c.toNat < 128 := by
  unfold isAsciiAlphanumeric isAsciiDigit at h
  simp only [Bool.or_eq_true, Bool.and_eq_true, decide_eq_true_eq, Char.le_def,
    UInt32.le_iff_toNat_le] at h
  change c.val.toNat < 128
  have h9 : ('9' : Char).val.toNat = 57 := rfl
  have hz : ('z' : Char).val.toNat = 122 := rfl
  have hZ : ('Z' : Char).val.toNat = 90 := rfl
  omega

theorem isAsciiAlphanumeric_of_hexdigit {c : Char} (h : isAsciiHexdigit c = true) :
    isAsciiAlphanumeric c = true := by
  unfold isAsciiHexdigit at h
  unfold isAsciiAlphanumeric
  simp only [Bool.or_eq_true, Bool.and_eq_true, decide_eq_true_eq] at h ⊢
  rcases h with (h | ⟨h1, h2⟩) | ⟨h1, h2⟩
  · exact Or.inl (Or.inl h)
  · exact Or.inl (Or.inr ⟨h1, le_trans h2 (by decide)⟩)
  · exact Or.inr ⟨h1, le_trans h2 (by decide)⟩

theorem utf8ByteSize_of_hexdigits {s : String} (h : ∀ c ∈ s.toList, isAsciiHexdigit c = true) :
    s.utf8ByteSize = s.toList.length :=
  utf8ByteSize_of_ascii fun c hc =>
    toNat_of_isAsciiAlphanumeric (isAsciiAlphanumeric_of_hexdigit (h c hc))

theorem toDigit16_hexDigit {n : Nat} (h : n < 16) : toDigit16 (hexDigit n) = some n := by
  revert n
  decide

theorem isAsciiHexdigit_hexDigit {n : Nat} (h : n < 16) : isAsciiHexdigit (hexDigit n) = true := by
  revert n
  decide

theorem hexDecode_hexEncode (bs : List UInt8) : hexDecode (hexEncode bs).toList = some bs := by
  unfold hexEncode
  rw [String.toList_ofList]
  induction bs with
  | nil => rfl
  | cons b bs ih =>
    have hb := b.toNat_lt
    have hbyte : UInt8.ofNat (b.toNat / 16 * 16 + b.toNat % 16) = b := by
      rw [Nat.div_add_mod']
      exact UInt8.ofNat_toNat
    rw [List.flatMap_cons, List.cons_append, List.cons_append, List.nil_append, hexDecode,
      toDigit16_hexDigit (by omega), toDigit16_hexDigit (by omega), ih]
    exact congrArg some (congrArg (· :: bs) hbyte)

theorem mem_hexEncode {bs : List UInt8} {c : Char} (h : c ∈ (hexEncode bs).toList) :
    isAsciiHexdigit c = true := by
  unfold hexEncode at h
  rw [String.toList_ofList, List.mem_flatMap] at h
  obtain ⟨b, -, hc⟩ := h
  have hb := b.toNat_lt
  simp only [List.mem_cons, List.not_mem_nil, or_false] at hc
  rcases hc with rfl | rfl
  · exact isAsciiHexdigit_hexDigit (by omega)
  · exact isAsciiHexdigit_hexDigit (by omega)

theorem utf8ByteSize_hexEncode (bs : List UInt8) : (hexEncode bs).utf8ByteSize = 2 * bs.length := by
  rw [utf8ByteSize_of_hexdigits fun c hc => mem_hexEncode hc]
  unfold hexEncode
  rw [String.toList_ofList]
  induction bs with
  | nil => rfl
  | cons b bs ih =>
    rw [List.flatMap_cons, List.length_append, ih]
    simp
    omega

/-- An IEEE-754 `f64` by its bit pattern; nothing here computes with one. -/
structure F64 where
  bits : UInt64
deriving DecidableEq, Repr

/-- `f64::is_finite`: the exponent is not all ones. -/
def F64.isFinite (x : F64) : Bool := (x.bits >>> 52) &&& 0x7ff != 0x7ff

end TreeMiner
