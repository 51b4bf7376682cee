import TreeMiner.Host.Cpp
import TreeMiner.Lib.CharBoundary
import TreeMiner.Miner.Capture

/-! A request to hash, as the two miners check it, and the keys a batch draws for it. The
Rust texts are a `String`, the C++ ones the bytes of a `std::string`. -/

namespace TreeMiner

open Lib

/-- What the checks ask of a text. -/
structure Texts (τ : Type) where
  lit : String → τ
  append : τ → τ → τ
  size : τ → Nat
  /-- the first bytes, `none` inside a character -/
  front : τ → Nat → Option τ
  strip0x : τ → τ
  lower : τ → τ
  isHexString : τ → Bool
  startsWith : τ → τ → Bool

/-- The fields of `HashRequest` and `HashApiRequest` that are checked. -/
structure RequestOf (τ : Type) where
  algorithm : τ
  backend : τ
  saltHex : τ
  key : τ
  keyPrefix : τ
  targetPattern : τ
  difficulty : UInt32
  batchSize : UInt64
  deviceId : Int32
  gpuFirstBlocks : Bool

/-- The same request in other texts. -/
def RequestOf.map {τ υ : Type} (f : τ → υ) (r : RequestOf τ) : RequestOf υ where
  algorithm := f r.algorithm
  backend := f r.backend
  saltHex := f r.saltHex
  key := f r.key
  keyPrefix := f r.keyPrefix
  targetPattern := f r.targetPattern
  difficulty := r.difficulty
  batchSize := r.batchSize
  deviceId := r.deviceId
  gpuFirstBlocks := r.gpuFirstBlocks

namespace Texts

variable {τ : Type} (T : Texts τ)

def normalizeHex (value : τ) : τ := T.lower (T.strip0x value)

/-- A message, where a check fails. -/
def pushIf (bad : Prop) [Decidable bad] (message : String) : List τ :=
  if bad then [T.lit message] else []

def saltErrors (salt : τ) : List τ :=
  if T.size salt = 0 then [T.lit "salt_hex is required"]
  else T.pushIf (T.size salt % 2 ≠ 0) "salt_hex must contain an even number of hex characters" ++
    T.pushIf (T.size salt < 16) "salt_hex must be at least 16 hex characters" ++
    T.pushIf (T.isHexString salt = false) "salt_hex must contain only hex characters"

def prefixErrors (keyPrefix : τ) : List τ :=
  if T.size keyPrefix = 0 then []
  else T.pushIf (HASH_API_KEY_LENGTH < T.size keyPrefix)
      "key_prefix cannot exceed 64 hex characters" ++
    T.pushIf (T.isHexString keyPrefix = false) "key_prefix must contain only hex characters"

def keyErrors (keyPrefix key : τ) : List τ :=
  if T.size key = 0 then []
  else T.pushIf (T.size key ≠ HASH_API_KEY_LENGTH) "key must contain exactly 64 hex characters" ++
    T.pushIf (T.isHexString key = false) "key must contain only hex characters" ++
    T.pushIf (T.size keyPrefix ≠ 0 ∧ T.startsWith key keyPrefix = false)
      "key must start with key_prefix when both are provided"

/-- `validate_request`: every problem at once. -/
def validateRequest [DecidableEq τ] (r : RequestOf τ) : List τ :=
  (if r.algorithm = T.lit "argon2id-xen" then []
    else [T.append (T.lit "unsupported algorithm: ") r.algorithm]) ++
  (if r.backend = T.lit "cpu" ∨ r.backend = T.lit "reference" ∨ r.backend = T.lit "cuda" then []
    else [T.append (T.lit "unsupported backend: ") r.backend]) ++
  T.saltErrors (T.normalizeHex r.saltHex) ++
  T.prefixErrors (T.normalizeHex r.keyPrefix) ++
  T.keyErrors (T.normalizeHex r.keyPrefix) (T.normalizeHex r.key) ++
  T.pushIf (T.size r.targetPattern = 0) "target_pattern is required" ++
  T.pushIf (MAX_TARGET_PATTERN_LENGTH < T.size r.targetPattern) "target_pattern is too long" ++
  T.pushIf (r.difficulty = 0) "difficulty must be greater than zero" ++
  T.pushIf (r.batchSize = 0) "batch_size must be greater than zero" ++
  T.pushIf ((r.backend = T.lit "cpu" ∨ r.backend = T.lit "reference") ∧
    MAX_CPU_BATCH_SIZE < r.batchSize.toNat) "cpu batch_size exceeds safe limit" ++
  T.pushIf (r.deviceId < 0) "device_id must be non-negative" ++
  T.pushIf (r.gpuFirstBlocks = true ∧ r.backend ≠ T.lit "cuda")
    "gpu_first_blocks requires backend=cuda"

/-! ## Keys -/

/-- The digits of the words `k, k + 1, ..` of the engine, sixteen of a word from its low end. -/
def digits (rng : Nat → UInt64) (k missing : Nat) : List Char :=
  if missing = 0 then []
  else (List.range (min 16 missing)).map (fun i => hexDigit ((rng k).toNat / 16 ^ i % 16)) ++
    digits rng (k + 1) (missing - 16)
termination_by missing

end Texts

/-- `0x` or `0X` off the front. -/
def strip0x : List Char → List Char
  | '0' :: 'x' :: body => body
  | '0' :: 'X' :: body => body
  | body => body

/-- `str` -/
def rustTexts : Texts String where
  lit := id
  append := String.append
  size := String.utf8ByteSize
  front s n := (slice s.toList 0 n).map String.ofList
  strip0x s := String.ofList (strip0x s.toList)
  lower s := String.ofList (s.toList.map Char.toLower)
  isHexString s := s.toList.all isAsciiHexdigit
  startsWith s t := (utf8 t.toList).isPrefixOf (utf8 s.toList)

namespace Cpp

/-- `std::tolower` in the C locale. -/
def tolower (c : UInt8) : UInt8 := if 65 ≤ c ∧ c ≤ 90 then c + 32 else c

def strip0x : List UInt8 → List UInt8
  | 48 :: 120 :: body => body
  | 48 :: 88 :: body => body
  | body => body

/-- `std::string` -/
def cppTexts : Texts (List UInt8) where
  lit := lit
  append := List.append
  size := List.length
  front s n := some (s.take n)
  strip0x := strip0x
  lower s := s.map tolower
  isHexString s := s.all fun c => (hexNibble c).isSome
  startsWith s t := t.isPrefixOf s

end Cpp

abbrev HashRequest := RequestOf String

/-! ## Texts in other texts -/

namespace Texts

variable {τ υ : Type}

/-- A way from texts to texts that every check and every message commutes with. -/
structure Hom (T : Texts τ) (U : Texts υ) (f : τ → υ) : Prop where
  inj : Function.Injective f
  lit : ∀ s, f (T.lit s) = U.lit s
  append : ∀ a b, f (T.append a b) = U.append (f a) (f b)
  size : ∀ a, U.size (f a) = T.size a
  strip0x : ∀ a, f (T.strip0x a) = U.strip0x (f a)
  lower : ∀ a, f (T.lower a) = U.lower (f a)
  isHexString : ∀ a, U.isHexString (f a) = T.isHexString a
  startsWith : ∀ a b, U.startsWith (f a) (f b) = T.startsWith a b

variable {T : Texts τ} {U : Texts υ} {f : τ → υ} (h : Hom T U f)

include h

theorem Hom.eq_lit (a : τ) (s : String) : f a = U.lit s ↔ a = T.lit s := by
  rw [← h.lit]
  exact h.inj.eq_iff

theorem Hom.normalizeHex (a : τ) : U.normalizeHex (f a) = f (T.normalizeHex a) := by
  unfold Texts.normalizeHex
  rw [h.lower, h.strip0x]

theorem Hom.pushIf (bad : Prop) [Decidable bad] (message : String) :
    (T.pushIf bad message).map f = U.pushIf bad message := by
  unfold Texts.pushIf
  split_ifs
  · rw [List.map_singleton, h.lit]
  · rfl

theorem Hom.saltErrors (salt : τ) : (T.saltErrors salt).map f = U.saltErrors (f salt) := by
  unfold Texts.saltErrors
  simp only [h.size, h.isHexString, apply_ite (List.map f), List.map_append, h.pushIf,
    List.map_singleton, h.lit]

theorem Hom.prefixErrors (keyPrefix : τ) :
    (T.prefixErrors keyPrefix).map f = U.prefixErrors (f keyPrefix) := by
  unfold Texts.prefixErrors
  simp only [h.size, h.isHexString, apply_ite (List.map f), List.map_append, h.pushIf,
    List.map_nil]

theorem Hom.keyErrors (keyPrefix key : τ) :
    (T.keyErrors keyPrefix key).map f = U.keyErrors (f keyPrefix) (f key) := by
  unfold Texts.keyErrors
  simp only [h.size, h.isHexString, h.startsWith, apply_ite (List.map f), List.map_append,
    h.pushIf, List.map_nil]

/-- The checks find the same problems and report them in the same words. -/
theorem Hom.validateRequest [DecidableEq τ] [DecidableEq υ] (r : RequestOf τ) :
    U.validateRequest (r.map f) = (T.validateRequest r).map f := by
  unfold Texts.validateRequest RequestOf.map
  simp only [h.normalizeHex, h.eq_lit, h.size, ne_eq, List.map_append, h.pushIf, h.saltErrors,
    h.prefixErrors, h.keyErrors, apply_ite (List.map f), List.map_nil, List.map_singleton, h.append,
    h.lit]

end Texts

/-! ## Strings as bytes -/

namespace Cpp

theorem byte_high {c : Char} (hc : 128 ≤ c.toNat) {b : UInt8} (hb : b ∈ String.utf8EncodeChar c) :
    128 ≤ b.toNat := by
  rcases byte_of_utf8EncodeChar hb with h | h
  · omega
  · exact h

/-- An ASCII byte in front is a character. -/
theorem utf8_eq_cons {cs : List Char} {b : UInt8} {rest : List UInt8} (hb : b.toNat < 128)
    (h : utf8 cs = b :: rest) : ∃ cs', cs = Char.ofNat b.toNat :: cs' ∧ utf8 cs' = rest := by
  cases cs with
  | nil => cases h
  | cons c cs =>
    by_cases hc : c.toNat < 128
    · rw [utf8_cons hc, List.cons_eq_cons] at h
      obtain ⟨rfl, htail⟩ := h
      refine ⟨cs, ?_, htail⟩
      rw [UInt8.toNat_ofNat', Nat.mod_eq_of_lt (by omega), Char.ofNat_toNat]
    · have hfront : b ∈ String.utf8EncodeChar c := by
        rw [utf8, List.flatMap_cons] at h
        cases henc : String.utf8EncodeChar c with
        | nil => exact absurd henc (String.utf8EncodeChar_ne_nil)
        | cons b' bs =>
          rw [henc, List.cons_append, List.cons_eq_cons] at h
          rw [h.1]
          exact List.mem_cons_self
      have := byte_high (by omega) hfront
      omega

theorem utf8_length (cs : List Char) : (utf8 cs).length = String.utf8Len cs := by
  induction cs with
  | nil => rfl
  | cons c cs ih =>
    rw [utf8, List.flatMap_cons, List.length_append, String.length_utf8EncodeChar,
      String.utf8Len_cons, Nat.add_comm, ← ih]
    rfl

theorem toLower_high {c : Char} (hc : 128 ≤ c.toNat) : c.toLower = c := by
  refine dif_neg ?_
  rintro ⟨-, hZ⟩
  have hZ := UInt32.le_iff_toNat_le.1 hZ
  have h90 : ('Z' : Char).val.toNat = 90 := rfl
  have hval : c.val.toNat = c.toNat := rfl
  omega

theorem tolower_utf8 (c : Char) :
    (String.utf8EncodeChar c).map tolower = String.utf8EncodeChar c.toLower := by
  by_cases hc : c.toNat < 128
  · have hascii : ∀ n < 128, (String.utf8EncodeChar (Char.ofNat n)).map tolower =
        String.utf8EncodeChar (Char.ofNat n).toLower := by decide
    rw [← Char.ofNat_toNat c]
    exact hascii c.toNat hc
  · have hbyte : ∀ b ∈ String.utf8EncodeChar c, tolower b = b := by
      intro b hb
      have hhigh := byte_high (by omega) hb
      unfold tolower
      rw [if_neg]
      simp only [UInt8.le_iff_toNat_le, UInt8.reduceToNat]
      omega
    rw [toLower_high (by omega), List.map_congr_left hbyte, List.map_id']

theorem isxdigit_utf8 (c : Char) :
    ((String.utf8EncodeChar c).all fun b => (hexNibble b).isSome) = isAsciiHexdigit c := by
  by_cases hc : c.toNat < 128
  · have hascii : ∀ n < 128, ((String.utf8EncodeChar (Char.ofNat n)).all fun b =>
        (hexNibble b).isSome) = isAsciiHexdigit (Char.ofNat n) := by decide
    rw [← Char.ofNat_toNat c]
    exact hascii c.toNat hc
  · have hno : isAsciiHexdigit c = false := by
      by_contra h
      exact hc (toNat_of_isAsciiAlphanumeric
        (isAsciiAlphanumeric_of_hexdigit (Bool.not_eq_false _ ▸ h)))
    have hdigit : ∀ b : UInt8, 128 ≤ b.toNat → (hexNibble b).isSome = false := by
      intro b hb
      unfold hexNibble
      simp only [UInt8.le_iff_toNat_le, UInt8.reduceToNat]
      rw [if_neg (by omega), if_neg (by omega), if_neg (by omega)]
      rfl
    rw [hno]
    cases henc : String.utf8EncodeChar c with
    | nil => exact absurd henc String.utf8EncodeChar_ne_nil
    | cons b bs =>
      rw [List.all_cons, hdigit b (byte_high (by omega) (henc ▸ List.mem_cons_self)),
        Bool.false_and]

theorem strip0x_utf8 (cs : List Char) :
    utf8 (TreeMiner.strip0x cs) = strip0x (utf8 cs) := by
  unfold strip0x
  split
  next heq =>
    obtain ⟨rest, rfl, hrest⟩ := utf8_eq_cons (by decide) heq
    obtain ⟨body, rfl, hbody⟩ := utf8_eq_cons (by decide) hrest
    exact hbody
  next heq =>
    obtain ⟨rest, rfl, hrest⟩ := utf8_eq_cons (by decide) heq
    obtain ⟨body, rfl, hbody⟩ := utf8_eq_cons (by decide) hrest
    exact hbody
  next hx hX =>
    unfold TreeMiner.strip0x
    split
    next body => exact absurd rfl (hx (utf8 body))
    next body => exact absurd rfl (hX (utf8 body))
    next => rfl

theorem lit_hom : Texts.Hom rustTexts cppTexts lit where
  inj a b hab := by
    have := lit_beq a b
    rw [hab, beq_self_eq_true] at this
    exact eq_of_beq this.symm
  lit s := rfl
  append a b := by
    change utf8 (a ++ b).toList = utf8 a.toList ++ utf8 b.toList
    rw [String.toList_append, utf8_append]
  size a := by
    change (utf8 a.toList).length = a.utf8ByteSize
    rw [utf8_length, String.utf8Len_toList]
  strip0x a := by
    change utf8 (String.ofList (TreeMiner.strip0x a.toList)).toList = strip0x (utf8 a.toList)
    rw [String.toList_ofList, strip0x_utf8]
  lower a := by
    change utf8 (String.ofList (a.toList.map Char.toLower)).toList = (utf8 a.toList).map tolower
    rw [String.toList_ofList]
    unfold utf8
    rw [List.flatMap_map, List.map_flatMap]
    exact List.flatMap_congr fun c _ => (tolower_utf8 c).symm
  isHexString a := by
    change ((utf8 a.toList).all fun b => (hexNibble b).isSome) = a.toList.all isAsciiHexdigit
    unfold utf8
    rw [List.all_flatMap]
    simp only [isxdigit_utf8]
  startsWith a b := rfl

end Cpp

/-! ## Keys that are drawn -/

theorem normalizeHex_rust (s : String) : rustTexts.normalizeHex s = normalizeHex s := by
  change String.ofList ((String.ofList (strip0x s.toList)).toList.map Char.toLower) = _
  rw [String.toList_ofList]
  rfl

namespace Texts

theorem digits_length (rng : Nat → UInt64) (k missing : Nat) :
    (digits rng k missing).length = missing := by
  induction k, missing using digits.induct with
  | case1 k => rw [digits, if_pos rfl]; rfl
  | case2 k missing h ih =>
    rw [digits, if_neg h, List.length_append, List.length_map, List.length_range, ih]
    omega

theorem digits_hex (rng : Nat → UInt64) (k missing : Nat) :
    ∀ c ∈ digits rng k missing, ∃ n < 16, c = hexDigit n := by
  induction k, missing using digits.induct with
  | case1 k =>
    rw [digits, if_pos rfl]
    exact nofun
  | case2 k missing h ih =>
    rw [digits, if_neg h]
    intro c hc
    rcases List.mem_append.1 hc with hc | hc
    · obtain ⟨i, -, rfl⟩ := List.mem_map.1 hc
      exact ⟨_, Nat.mod_lt _ (by decide), rfl⟩
    · exact ih c hc

end Texts

/-- A text of hex digits in lower case. -/
def LowerHex (s : String) : Prop :=
  ∀ c ∈ s.toList, isAsciiHexdigit c = true ∧ c.toLower = c

theorem LowerHex.append {s t : String} (hs : LowerHex s) (ht : LowerHex t) :
    LowerHex (s ++ t) := by
  intro c hc
  rw [String.toList_append, List.mem_append] at hc
  exact hc.elim (hs c) (ht c)

theorem LowerHex.digits (rng : Nat → UInt64) (k missing : Nat) :
    LowerHex (String.ofList (Texts.digits rng k missing)) := by
  intro c hc
  rw [String.toList_ofList] at hc
  obtain ⟨n, hn, rfl⟩ := Texts.digits_hex rng k missing c hc
  have hlower : ∀ n < 16, (hexDigit n).toLower = hexDigit n := by decide
  exact ⟨isAsciiHexdigit_hexDigit hn, hlower n hn⟩

/-- Such a text is its own normal form. -/
theorem LowerHex.normalizeHex {s : String} (h : LowerHex s) :
    rustTexts.lower s = s ∧ rustTexts.normalizeHex s = s := by
  have hlower : rustTexts.lower s = s := by
    change String.ofList (s.toList.map Char.toLower) = s
    rw [List.map_congr_left fun c hc => (h c hc).2, List.map_id', String.ofList_toList]
  have hstrip : strip0x s.toList = s.toList := by
    have hx : isAsciiHexdigit 'x' = false ∧ isAsciiHexdigit 'X' = false := by decide
    unfold strip0x
    split
    next heq => exact absurd (h 'x' (by rw [heq]; simp)).1 (by rw [hx.1]; simp)
    next heq => exact absurd (h 'X' (by rw [heq]; simp)).1 (by rw [hx.2]; simp)
    next => rfl
  refine ⟨hlower, ?_⟩
  change rustTexts.lower (String.ofList (strip0x s.toList)) = s
  rw [hstrip, String.ofList_toList, hlower]

theorem LowerHex.isHexString {s : String} (h : LowerHex s) : rustTexts.isHexString s = true :=
  List.all_eq_true.2 fun c hc => (h c hc).1

theorem pushIf_nil {τ : Type} {T : Texts τ} {bad : Prop} [Decidable bad] {message : String} :
    T.pushIf bad message = [] ↔ ¬ bad := by
  unfold Texts.pushIf
  split_ifs with h <;> simp [h]

/-- The key drawn behind an accepted prefix, for any words of the engine. -/
def drawn (keyPrefix : String) (rng : Nat → UInt64) (k : Nat) : String :=
  keyPrefix ++ String.ofList
    (Texts.digits rng k (HASH_API_KEY_LENGTH - keyPrefix.utf8ByteSize))

end TreeMiner
