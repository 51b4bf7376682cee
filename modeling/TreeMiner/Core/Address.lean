import TreeMiner.Core.Prim

/-! Ethereum address validation of `tm-core`: the full EIP-55 checksum form, over
whatever Keccak-256 the crate is linked with. -/

namespace TreeMiner

section

variable (keccak256 : List UInt8 → Vector UInt8 32)

def hexDigitUpper (n : Nat) : Char := if n < 10 then Char.ofNat (48 + n) else Char.ofNat (55 + n)

/-- `hex::encode_upper` of the digest. -/
def keccak256Hex (input : String) : List Char :=
  (keccak256 input.toUTF8.data.toList).toList.flatMap fun b =>
    [hexDigitUpper (b.toNat / 16), hexDigitUpper (b.toNat % 16)]

def toAsciiLowercase (c : Char) : Char :=
  if 'A' ≤ c && c ≤ 'Z' then Char.ofNat (c.toNat + 32) else c

def toAsciiUppercase (c : Char) : Char :=
  if 'a' ≤ c && c ≤ 'z' then Char.ofNat (c.toNat - 32) else c

/-- A hex digit by its value: a decimal digit, a lower-case letter or an upper-case one. -/
theorem toDigit16_some {c : Char} {d : Nat} (h : toDigit16 c = some d) :
    d < 16 ∧ hexDigit d = toAsciiLowercase c := by
  have hcase : (d < 10 ∧ c.toNat = 48 + d) ∨ (10 ≤ d ∧ d < 16 ∧ c.toNat = 87 + d) ∨
      (10 ≤ d ∧ d < 16 ∧ c.toNat = 55 + d) := by
    unfold toDigit16 isAsciiDigit digitVal at h
    simp only [Bool.and_eq_true, decide_eq_true_eq, Char.le_def, UInt32.le_iff_toNat_le] at h
    have hbounds : ('0' : Char).val.toNat = 48 ∧ ('9' : Char).val.toNat = 57 ∧
        ('a' : Char).val.toNat = 97 ∧ ('f' : Char).val.toNat = 102 ∧
        ('A' : Char).val.toNat = 65 ∧ ('F' : Char).val.toNat = 70 := by decide
    have hval : c.val.toNat = c.toNat := rfl
    have h0 : ('0' : Char).toNat = 48 := rfl
    have ha : ('a' : Char).toNat = 97 := rfl
    have hA : ('A' : Char).toNat = 65 := rfl
    split_ifs at h with h1 h2 h3 <;> rw [Option.some.injEq] at h <;> omega
  rw [← Char.ofNat_toNat c]
  rcases hcase with ⟨hd, hc⟩ | ⟨hlow, hd, hc⟩ | ⟨hlow, hd, hc⟩
  · have hdigit : ∀ d < 10, hexDigit d = toAsciiLowercase (Char.ofNat (48 + d)) := by decide
    exact ⟨by omega, by rw [hc, hdigit d hd]⟩
  · have hlower : ∀ d < 16, 10 ≤ d → hexDigit d = toAsciiLowercase (Char.ofNat (87 + d)) := by
      decide
    exact ⟨hd, by rw [hc, hlower d hd hlow]⟩
  · have hupper : ∀ d < 16, 10 ≤ d → hexDigit d = toAsciiLowercase (Char.ofNat (55 + d)) := by
      decide
    exact ⟨hd, by rw [hc, hupper d hd hlow]⟩

theorem hexDecode_cons {hi lo : Char} {rest : List Char} {bs : List UInt8}
    (h : hexDecode (hi :: lo :: rest) = some bs) :
    ∃ x y tail, toDigit16 hi = some x ∧ toDigit16 lo = some y ∧ hexDecode rest = some tail ∧
      bs = UInt8.ofNat (x * 16 + y) :: tail := by
  rw [hexDecode] at h
  simp only [Option.bind_eq_bind, Option.bind_eq_some_iff, Option.some.injEq] at h
  obtain ⟨x, hx, y, hy, tail, htail, rfl⟩ := h
  exact ⟨x, y, tail, hx, hy, htail, rfl⟩

/-- Hex text decodes to the bytes whose lower-case text it is. -/
theorem hexEncode_of_hexDecode {cs : List Char} {bs : List UInt8} (h : hexDecode cs = some bs) :
    (hexEncode bs).toList = cs.map toAsciiLowercase := by
  unfold hexEncode
  rw [String.toList_ofList]
  induction cs using hexDecode.induct generalizing bs with
  | case1 =>
    obtain rfl := Option.some.inj h
    rfl
  | case2 c => cases h
  | case3 hi lo rest ih =>
    obtain ⟨x, y, tail, hx, hy, htail, rfl⟩ := hexDecode_cons h
    obtain ⟨hxlt, hxlow⟩ := toDigit16_some hx
    obtain ⟨hylt, hylow⟩ := toDigit16_some hy
    have hbyte : (UInt8.ofNat (x * 16 + y)).toNat = x * 16 + y := by
      rw [UInt8.toNat_ofNat']
      omega
    rw [List.flatMap_cons, ih htail, hbyte, show (x * 16 + y) / 16 = x by omega,
      show (x * 16 + y) % 16 = y by omega, hxlow, hylow]
    rfl

/-- A text of hex digits of even length decodes. -/
theorem hexDecode_isSome {cs : List Char} (heven : cs.length % 2 = 0)
    (hdigits : ∀ c ∈ cs, isAsciiHexdigit c = true) : ∃ bs, hexDecode cs = some bs := by
  have hdigit : ∀ c, isAsciiHexdigit c = true → ∃ d, toDigit16 c = some d := by
    intro c hc
    unfold isAsciiHexdigit at hc
    unfold toDigit16
    split_ifs with h1 h2 h3
    · exact ⟨_, rfl⟩
    · exact ⟨_, rfl⟩
    · exact ⟨_, rfl⟩
    · rw [Bool.or_eq_true, Bool.or_eq_true] at hc
      exact absurd hc (by rintro ((h | h) | h) <;> contradiction)
  induction cs using hexDecode.induct with
  | case1 => exact ⟨[], rfl⟩
  | case2 c => cases heven
  | case3 hi lo rest ih =>
    simp only [List.length_cons, List.forall_mem_cons] at heven hdigits
    obtain ⟨x, hx⟩ := hdigit hi hdigits.1
    obtain ⟨y, hy⟩ := hdigit lo hdigits.2.1
    obtain ⟨tail, htail⟩ := ih (by omega) hdigits.2.2
    exact ⟨_, by rw [hexDecode, hx, hy, htail]; rfl⟩

theorem isAsciiHexdigit_of_toDigit16 {c : Char} {d : Nat} (h : toDigit16 c = some d) :
    isAsciiHexdigit c = true := by
  unfold toDigit16 at h
  unfold isAsciiHexdigit
  split_ifs at h with h1 h2 h3
  · rw [h1]; rfl
  · rw [h2, Bool.or_true]; rfl
  · rw [h3, Bool.or_true]

/-- Only hex digits decode. -/
theorem isAsciiHexdigit_of_hexDecode {cs : List Char} {bs : List UInt8}
    (h : hexDecode cs = some bs) : ∀ c ∈ cs, isAsciiHexdigit c = true := by
  induction cs using hexDecode.induct generalizing bs with
  | case1 => simp
  | case2 c => cases h
  | case3 hi lo rest ih =>
    obtain ⟨x, y, tail, hx, hy, htail, -⟩ := hexDecode_cons h
    exact List.forall_mem_cons.2 ⟨isAsciiHexdigit_of_toDigit16 hx,
      List.forall_mem_cons.2 ⟨isAsciiHexdigit_of_toDigit16 hy, ih htail⟩⟩

/-- Hex text stands for given bytes exactly if it is their text up to case. -/
theorem hexDecode_eq_iff {cs : List Char} {bs bs' : List UInt8} (h : hexDecode cs = some bs) :
    bs = bs' ↔ cs.map toAsciiLowercase = (hexEncode bs').toList := by
  rw [← hexEncode_of_hexDecode h]
  refine ⟨fun heq => by rw [heq], fun heq => ?_⟩
  have := hexDecode_hexEncode bs
  rw [heq, hexDecode_hexEncode] at this
  exact (Option.some.inj this).symm

def toChecksumAddress (address : String) : Option (List Char) :=
  match address.toList with
  | '0' :: 'x' :: body =>
    if body.length = 40 ∧ body.all isAsciiHexdigit then
      let lower := body.map toAsciiLowercase
      let hash := keccak256Hex keccak256 (String.ofList lower)
      some ('0' :: 'x' :: (lower.zip hash).map fun p =>
        if '8' ≤ p.2 then toAsciiUppercase p.1 else p.1)
    else none
  | _ => none

def isValidEthereumAddress (address : String) : Bool :=
  match toChecksumAddress keccak256 address with
  | some checksummed => checksummed = address.toList
  | none => false

/-! ## The letters of an address -/

/-- EIP-55: a letter is upper case exactly if its hash digit is at least 8. -/
def CasedBy (hash cs : List Char) : Prop :=
  ∀ p ∈ cs.zip hash, ('A' ≤ p.1 ∧ p.1 ≤ 'Z' → '8' ≤ p.2) ∧ ('a' ≤ p.1 ∧ p.1 ≤ 'z' → ¬ '8' ≤ p.2)

theorem keccak256Hex_length (input : String) : (keccak256Hex keccak256 input).length = 64 := by
  unfold keccak256Hex
  rw [List.length_flatMap]
  simp only [List.length_cons, List.length_nil, List.map_const', List.sum_replicate_nat,
    Vector.length_toList]

/-- An upper-case letter is another one in lower case, and comes back from it. -/
theorem recased_upper {c : Char} (h : 'A' ≤ c ∧ c ≤ 'Z') :
    toAsciiLowercase c ≠ c ∧ toAsciiUppercase (toAsciiLowercase c) = c := by
  have hletters : ('A' : Char).toNat = 65 ∧ ('Z' : Char).toNat = 90 ∧ ('a' : Char).toNat = 97 ∧
      ('z' : Char).toNat = 122 := by decide
  have hc := (char_le_iff _ _).1 h.1
  have hc' := (char_le_iff _ _).1 h.2
  have hnat := @ofNat_toNat_of_lt (c.toNat + 32) (by omega)
  have hlow : toAsciiLowercase c = Char.ofNat (c.toNat + 32) := by
    unfold toAsciiLowercase
    rw [if_pos (by simpa using h)]
  rw [hlow]
  constructor
  · intro heq
    have := congrArg Char.toNat heq
    omega
  · have hback : 'a' ≤ Char.ofNat (c.toNat + 32) ∧ Char.ofNat (c.toNat + 32) ≤ 'z' := by
      rw [char_le_iff, char_le_iff, hnat]
      omega
    unfold toAsciiUppercase
    rw [if_pos (by simpa using hback), hnat, Nat.add_sub_cancel, Char.ofNat_toNat]

theorem recased_lower {c : Char} (h : 'a' ≤ c ∧ c ≤ 'z') : toAsciiUppercase c ≠ c := by
  intro heq
  have hletters : ('a' : Char).toNat = 97 ∧ ('z' : Char).toNat = 122 := by decide
  have hc := (char_le_iff _ _).1 h.1
  have hc' := (char_le_iff _ _).1 h.2
  unfold toAsciiUppercase at heq
  rw [if_pos (by simpa using h)] at heq
  have hnat := congrArg Char.toNat heq
  rw [ofNat_toNat_of_lt (by omega)] at hnat
  omega

/-- A character in the case its hash digit asks for is the character itself. -/
theorem recased_eq_iff (c d : Char) :
    (if '8' ≤ d then toAsciiUppercase (toAsciiLowercase c) else toAsciiLowercase c) = c ↔
      ('A' ≤ c ∧ c ≤ 'Z' → '8' ≤ d) ∧ ('a' ≤ c ∧ c ≤ 'z' → ¬ '8' ≤ d) := by
  by_cases hupper : 'A' ≤ c ∧ c ≤ 'Z'
  · obtain ⟨hne, hback⟩ := recased_upper hupper
    have hnot : ¬ ('a' ≤ c ∧ c ≤ 'z') := fun h =>
      absurd (Char.le_trans h.1 hupper.2) (by decide)
    rw [hback]
    split_ifs with h8
    · exact iff_of_true rfl ⟨fun _ => h8, fun h => absurd h hnot⟩
    · exact iff_of_false hne fun h => h8 (h.1 hupper)
  · have hlow : toAsciiLowercase c = c := by
      unfold toAsciiLowercase
      rw [if_neg (by simpa using hupper)]
    rw [hlow]
    by_cases hlower : 'a' ≤ c ∧ c ≤ 'z'
    · split_ifs with h8
      · exact iff_of_false (recased_lower hlower) fun h => h.2 hlower h8
      · exact iff_of_true rfl ⟨fun h => absurd h hupper, fun _ => h8⟩
    · have hup : toAsciiUppercase c = c := by
        unfold toAsciiUppercase
        rw [if_neg (by simpa using hlower)]
      rw [hup, ite_self]
      exact iff_of_true rfl ⟨fun h => absurd h hupper, fun h => absurd h hlower⟩

/-- A text in its checksum case is the text itself exactly if its letters are cased by the
hash. -/
theorem recased_text_iff {cs hash : List Char} (h : cs.length ≤ hash.length) :
    ((cs.map toAsciiLowercase).zip hash).map (fun p =>
      if '8' ≤ p.2 then toAsciiUppercase p.1 else p.1) = cs ↔ CasedBy hash cs := by
  unfold CasedBy
  induction cs generalizing hash with
  | nil => simp
  | cons c cs ih =>
    cases hash with
    | nil => cases h
    | cons d hash =>
      rw [List.map_cons, List.zip_cons_cons, List.map_cons, List.cons.injEq,
        ih (Nat.le_of_succ_le_succ h), List.zip_cons_cons, List.forall_mem_cons,
        recased_eq_iff]

/-- What the miner takes for an address. -/
theorem isValidEthereumAddress_iff {address : String} :
    isValidEthereumAddress keccak256 address = true ↔
      ∃ body : List Char, address.toList = '0' :: 'x' :: body ∧ body.length = 40 ∧
        body.all isAsciiHexdigit = true ∧
        CasedBy (keccak256Hex keccak256 (String.ofList (body.map toAsciiLowercase))) body := by
  unfold isValidEthereumAddress toChecksumAddress
  split
  · rename_i checksummed hsome
    split at hsome
    · rename_i body haddress
      split_ifs at hsome with hbody
      rw [← Option.some.inj hsome, haddress, decide_eq_true_eq, List.cons.injEq, List.cons.injEq,
        and_iff_right rfl, and_iff_right rfl, recased_text_iff (by
          rw [keccak256Hex_length, hbody.1]
          decide)]
      constructor
      · intro hcased
        exact ⟨body, rfl, hbody.1, hbody.2, hcased⟩
      · rintro ⟨body', heq, -, -, hcased⟩
        obtain rfl : body = body' := by simpa using heq
        exact hcased
    · cases hsome
  · rename_i hnone
    refine iff_of_false nofun ?_
    rintro ⟨body, haddress, hlen, hhex, -⟩
    rw [haddress] at hnone
    simp [hlen, hhex] at hnone

end

end TreeMiner
