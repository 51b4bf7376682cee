import TreeMiner.Core.Address
import TreeMiner.Lib.Base64
import TreeMiner.Miner.Encoding

/-! A PHC text loses nothing. `base64_encode` writes the unpadded base64 of its bytes, so they can
be decoded, and what `assemble_phc` was given can be read off the text. -/

namespace TreeMiner

open Lib

/-! ## Base64 -/

theorem base64Char_eq (v : Nat) : base64Char v = Base64.symbol (v % 64) := by
  have htable : ∀ v < 64, BASE64_CHARS.getD v 'A' = Base64.symbol v := by decide +kernel
  exact htable _ (Nat.mod_lt _ (by decide))

theorem number_three (x y z : Nat) :
    Base64.number 8 [x, y, z] = x * 65536 + y * 256 + z := by
  simp only [Base64.number, List.foldl_cons, List.foldl_nil]
  omega

/-- The four groups of three bytes. -/
theorem group_three {x y z k : Nat} (hx : x < 256) (hy : y < 256) (hz : z < 256) (hk : k < 4) :
    Base64.symbol (Base64.group 6 (Base64.stream 8 [x, y, z]) k) =
      base64Char ((x * 65536 + y * 256 + z) / 2 ^ (24 - (6 * k + 6))) := by
  have hlt : ∀ v ∈ [x, y, z], v < 2 ^ 8 := by
    intro v hv
    simp only [List.mem_cons, List.not_mem_nil, or_false] at hv
    rcases hv with rfl | rfl | rfl
    · exact hx
    · exact hy
    · exact hz
  have hin : 6 * k + 6 ≤ 8 * [x, y, z].length := by
    rw [List.length_cons, List.length_cons, List.length_singleton]
    omega
  rw [Base64.group_number hlt hin, number_three, base64Char_eq]
  rfl

/-- Missing bytes count as zero. -/
theorem group_zeros (n k : Nat) (values : List Nat) :
    Base64.group 6 (Base64.stream 8 values) k =
      Base64.group 6 (Base64.stream 8 (values ++ List.replicate n 0)) k :=
  Base64.group_congr fun _ _ => (Base64.stream_append_zeros 8 values n _).symm

theorem encode_of_length {bytes : List UInt8} {n : Nat} (h : (8 * bytes.length + 5) / 6 = n) :
    Base64.encode bytes = (List.range n).map fun k =>
      Base64.symbol (Base64.group 6 (Base64.stream 8 (bytes.map UInt8.toNat)) k) := by
  unfold Base64.encode
  rw [h]

theorem base64Chars_one (a : UInt8) : base64Chars [a] = Base64.encode [a] := by
  have hgroup : ∀ k < 4, Base64.symbol (Base64.group 6 (Base64.stream 8 [a.toNat]) k) =
      base64Char (a.toNat * 65536 / 2 ^ (24 - (6 * k + 6))) := fun k hk => by
    have hthree := group_three (y := 0) (z := 0) a.toNat_lt (by decide) (by decide) hk
    rw [Nat.zero_mul, Nat.add_zero, Nat.add_zero] at hthree
    rw [group_zeros 2 k]
    exact hthree
  have hrange : List.range 2 = [0, 1] := rfl
  rw [@encode_of_length [a] 2 (by simp), hrange]
  simp only [List.map_cons, List.map_nil]
  rw [hgroup 0 (by decide), hgroup 1 (by decide)]
  rfl

theorem base64Chars_two (a b : UInt8) : base64Chars [a, b] = Base64.encode [a, b] := by
  have hgroup : ∀ k < 4, Base64.symbol (Base64.group 6 (Base64.stream 8 [a.toNat, b.toNat]) k) =
      base64Char ((a.toNat * 65536 + b.toNat * 256) / 2 ^ (24 - (6 * k + 6))) := fun k hk => by
    have hthree := group_three (z := 0) a.toNat_lt b.toNat_lt (by decide) hk
    rw [Nat.add_zero] at hthree
    rw [group_zeros 1 k]
    exact hthree
  have hrange : List.range 3 = [0, 1, 2] := rfl
  rw [@encode_of_length [a, b] 3 (by simp), hrange]
  simp only [List.map_cons, List.map_nil]
  rw [hgroup 0 (by decide), hgroup 1 (by decide), hgroup 2 (by decide)]
  rfl

theorem base64Chars_three (a b c : UInt8) : base64Chars [a, b, c] = Base64.encode [a, b, c] := by
  have hgroup : ∀ k < 4,
      Base64.symbol (Base64.group 6 (Base64.stream 8 [a.toNat, b.toNat, c.toNat]) k) =
        base64Char ((a.toNat * 65536 + b.toNat * 256 + c.toNat) / 2 ^ (24 - (6 * k + 6))) :=
    fun k hk => group_three a.toNat_lt b.toNat_lt c.toNat_lt hk
  have hrange : List.range 4 = [0, 1, 2, 3] := rfl
  rw [@encode_of_length [a, b, c] 4 (by simp), hrange]
  simp only [List.map_cons, List.map_nil]
  rw [hgroup 0 (by decide), hgroup 1 (by decide), hgroup 2 (by decide), hgroup 3 (by decide)]
  have hlow : (a.toNat * 65536 + b.toNat * 256 + c.toNat) / 2 ^ (24 - (6 * 3 + 6)) =
      a.toNat * 65536 + b.toNat * 256 + c.toNat := Nat.div_one _
  rw [hlow]
  rfl

theorem base64Chars_eq_encode (bytes : List UInt8) : base64Chars bytes = Base64.encode bytes := by
  induction bytes using base64Chars.induct with
  | case1 => rfl
  | case2 a => exact base64Chars_one a
  | case3 a b => exact base64Chars_two a b
  | case4 a b c rest ih =>
    have hsplit : a :: b :: c :: rest = [a, b, c] ++ rest := rfl
    have hchars : base64Chars (a :: b :: c :: rest) =
        base64Chars [a, b, c] ++ base64Chars rest := by
      rw [base64Chars, base64Chars, base64Chars]
      rfl
    rw [hchars, ih, base64Chars_three, hsplit, Base64.encode_append (by simp)]

theorem toList_base64Encode (bytes : List UInt8) :
    (base64Encode bytes).toList = Base64.encode bytes := by
  unfold base64Encode
  rw [String.toList_ofList, base64Chars_eq_encode]

theorem decode_base64Encode (bytes : List UInt8) :
    Base64.decode (base64Encode bytes).toList = some bytes := by
  rw [toList_base64Encode, Base64.decode_encode]

theorem base64Encode_injective : Function.Injective base64Encode := fun a b h =>
  Base64.encode_injective (by rw [← toList_base64Encode, h, toList_base64Encode])

theorem utf8ByteSize_base64Encode (bytes : List UInt8) :
    (base64Encode bytes).utf8ByteSize = base64EncodedLen bytes.length := by
  have hascii : ∀ c ∈ base64Chars bytes, c.toNat < 128 := by
    intro c hc
    have hsymbol : ∀ v < 64, (Base64.symbol v).toNat < 128 := by decide
    rw [base64Chars_eq_encode, Base64.encode_eq] at hc
    obtain ⟨v, hv, rfl⟩ := List.mem_map.1 hc
    exact hsymbol v (Base64.sextets_lt v hv)
  unfold base64Encode base64EncodedLen
  rw [utf8ByteSize_ascii hascii, base64Chars_eq_encode, Base64.length_encode]
  dsimp only
  split
  · omega
  · omega

/-- A slice holds less than `2 ^ 63` bytes, so the capacity is no overflow. -/
theorem base64EncodedLen_lt {inputLen : Nat} (h : inputLen < 2 ^ 63) :
    base64EncodedLen inputLen < 2 ^ 64 := by
  unfold base64EncodedLen
  dsimp only
  split
  · omega
  · omega

/-! ## The PHC text -/

/-- What stands in a PHC text of this miner. -/
structure Phc where
  memoryCost : UInt32
  salt : List UInt8
  digest : String
deriving DecidableEq, Repr

/-- The memory cost in the field of the parameters. -/
def readCost (params : List Char) : Option UInt32 :=
  match params.splitOn ',' with
  | ['m' :: '=' :: cost, ['t', '=', '1'], ['p', '=', '1']] =>
    (parseUnsigned u32Max (String.ofList cost)).map UInt32.ofNat
  | _ => none

/-- Reads a PHC text back, field by field. -/
def readPhc (phc : String) : Option Phc :=
  match phc.toList.splitOn '$' with
  | [[], name, version, params, salt, digest] =>
    if name = "argon2id".toList ∧ version = "v=19".toList then do
      let memoryCost ← readCost params
      let saltBytes ← Base64.decode salt
      some ⟨memoryCost, saltBytes, String.ofList digest⟩
    else none
  | _ => none

theorem not_dollar_mem_base64Encode (bytes : List UInt8) : '$' ∉ (base64Encode bytes).toList := by
  intro h
  unfold base64Encode at h
  rw [String.toList_ofList] at h
  exact not_dollar_of_mem_base64Chars h rfl

/-- The field of the parameters. -/
def paramsText (memoryCost : UInt32) : List Char :=
  'm' :: '=' :: (Nat.repr memoryCost.toNat).toList ++ ",t=1,p=1".toList

theorem not_dollar_mem_paramsText (memoryCost : UInt32) : '$' ∉ paramsText memoryCost := by
  unfold paramsText
  rw [List.mem_append, not_or]
  refine ⟨fun h => ?_, by decide⟩
  rcases List.mem_cons.1 h with h | h
  · exact absurd h (by decide)
  rcases List.mem_cons.1 h with h | h
  · exact absurd h (by decide)
  exact not_mem_repr_of_not_digit (by decide) _ h

theorem readCost_paramsText (memoryCost : UInt32) :
    readCost (paramsText memoryCost) = some memoryCost := by
  have hcomma : ∀ field ∈ ['m' :: '=' :: (Nat.repr memoryCost.toNat).toList, ['t', '=', '1'],
      ['p', '=', '1']], ',' ∉ field := by
    intro field hfield
    simp only [List.mem_cons, List.not_mem_nil, or_false] at hfield
    rcases hfield with rfl | rfl | rfl
    · rw [List.mem_cons, List.mem_cons, not_or, not_or]
      exact ⟨by decide, by decide, not_mem_repr_of_not_digit (by decide) _⟩
    · decide
    · decide
  have hsplit := List.splitOn_intercalate ',' hcomma (List.cons_ne_nil _ _)
  have hjoin : [','].intercalate ['m' :: '=' :: (Nat.repr memoryCost.toNat).toList,
      ['t', '=', '1'], ['p', '=', '1']] = paramsText memoryCost := by
    simp [paramsText]
  have hcost : parseUnsigned u32Max (Nat.repr memoryCost.toNat) = some memoryCost.toNat :=
    parseUnsigned_repr (Nat.le_of_lt_succ memoryCost.toNat_lt)
  rw [hjoin] at hsplit
  unfold readCost
  rw [hsplit]
  change (parseUnsigned u32Max (String.ofList (Nat.repr memoryCost.toNat).toList)).map
    UInt32.ofNat = some memoryCost
  rw [String.ofList_toList, hcost, Option.map_some, UInt32.ofNat_toNat]

theorem readPhc_assemblePhc {memoryCost : UInt32} {hexsalt digest phc : String}
    {salt : List UInt8} (hdollar : '$' ∉ digest.toList) (hsalt : hexToBytes hexsalt = .ok salt)
    (h : assemblePhc memoryCost hexsalt digest = .ok phc) :
    readPhc phc = some ⟨memoryCost, salt, digest⟩ := by
  have hfields : ∀ field ∈ [[], "argon2id".toList, "v=19".toList, paramsText memoryCost,
      (base64Encode salt).toList, digest.toList], '$' ∉ field := by
    intro field hfield
    simp only [List.mem_cons, List.not_mem_nil, or_false] at hfield
    rcases hfield with rfl | rfl | rfl | rfl | rfl | rfl
    · exact List.not_mem_nil
    · decide
    · decide
    · exact not_dollar_mem_paramsText memoryCost
    · exact not_dollar_mem_base64Encode salt
    · exact hdollar
  have hsplit := List.splitOn_intercalate '$' hfields (List.cons_ne_nil _ _)
  have hjoin : ['$'].intercalate [[], "argon2id".toList, "v=19".toList, paramsText memoryCost,
      (base64Encode salt).toList, digest.toList] = phc.toList := by
    unfold assemblePhc at h
    rw [hsalt] at h
    obtain rfl := Except.ok.inj h
    simp [paramsText, String.toList_append]
  rw [hjoin] at hsplit
  unfold readPhc
  rw [hsplit]
  dsimp only
  rw [if_pos ⟨rfl, rfl⟩, readCost_paramsText, decode_base64Encode, String.ofList_toList]
  rfl

/-- An even number of hex digits is accepted as a salt. -/
theorem hexToBytes_of_hex {hexsalt : String} (heven : hexsalt.utf8ByteSize % 2 = 0)
    (hhex : ∀ c ∈ hexsalt.toList, isAsciiHexdigit c = true) :
    ∃ salt, hexToBytes hexsalt = .ok salt := by
  obtain ⟨salt, hsalt⟩ := hexDecode_isSome (utf8ByteSize_of_hexdigits hhex ▸ heven) hhex
  refine ⟨salt, ?_⟩
  unfold hexToBytes
  rw [if_neg (not_not_intro heven), hsalt]

/-- `base64_encode` writes the unpadded standard base64 text of the bytes, in the length that
`base64_encoded_len` gives, and no other text is decoded to them. The PHC text of a find gives back
its digest, its memory cost and the bytes of its salt. -/
theorem phc_lossless :
    (∀ bytes : List UInt8,
      (base64Encode bytes).utf8ByteSize = base64EncodedLen bytes.length ∧
      (base64Encode bytes).toList = Base64.encode bytes ∧
      Base64.decode (base64Encode bytes).toList = some bytes ∧
      ∀ text, Base64.decode text = some bytes → text = (base64Encode bytes).toList) ∧
    Function.Injective base64Encode ∧
    ∀ (memoryCost : UInt32) (hexsalt digest : String),
      hexsalt.utf8ByteSize % 2 = 0 → (∀ c ∈ hexsalt.toList, isAsciiHexdigit c = true) →
      digest ≠ "" → '$' ∉ digest.toList →
      ∃ salt phc, hexToBytes hexsalt = .ok salt ∧
        assemblePhc memoryCost hexsalt digest = .ok phc ∧
        phcDigest phc = some digest ∧
        readPhc phc = some ⟨memoryCost, salt, digest⟩ := by
  refine ⟨fun bytes => ?_, base64Encode_injective, ?_⟩
  · refine ⟨utf8ByteSize_base64Encode bytes, toList_base64Encode bytes,
      decode_base64Encode bytes, fun text htext => ?_⟩
    rw [Base64.decode_eq_some_iff.1 htext, toList_base64Encode]
  · intro memoryCost hexsalt digest heven hhex hne hdollar
    obtain ⟨salt, hsalt⟩ := hexToBytes_of_hex heven hhex
    obtain ⟨phc, hphc⟩ : ∃ phc, assemblePhc memoryCost hexsalt digest = .ok phc := by
      unfold assemblePhc
      rw [hsalt]
      exact ⟨_, rfl⟩
    exact ⟨salt, phc, hsalt, hphc, phcDigest_assemblePhc hne hdollar hphc,
      readPhc_assemblePhc hdollar hsalt hphc⟩

theorem phc_lossless_deadbeef :
    ∃ salt phc, hexToBytes "deadBEEF" = .ok salt ∧
      assemblePhc 100000 "deadBEEF" "c2E+" = .ok phc ∧
      phcDigest phc = some "c2E+" ∧
      readPhc phc = some ⟨100000, salt, "c2E+"⟩ :=
  phc_lossless.2.2 100000 "deadBEEF" "c2E+" (by decide) (List.all_eq_true.1 (by decide))
    (by decide) (by decide)

end TreeMiner
