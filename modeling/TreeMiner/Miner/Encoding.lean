import TreeMiner.Core.Types

/-! Unpadded base64, the PHC text of a find, and the rules that make a digest a find. -/

namespace TreeMiner

/-! ## Encoding -/

def BASE64_CHARS : List Char :=
  "ABCDEFGHIJKLMNOPQRSTUVWXYZabcdefghijklmnopqrstuvwxyz0123456789+/".toList

/-- One character for the low six bits. -/
def base64Char (value : Nat) : Char := BASE64_CHARS.getD (value % 64) 'A'

def base64Chars : List UInt8 → List Char
  | [] => []
  | [a] =>
    let value := a.toNat * 65536
    [base64Char (value / 262144), base64Char (value / 4096)]
  | [a, b] =>
    let value := a.toNat * 65536 + b.toNat * 256
    [base64Char (value / 262144), base64Char (value / 4096), base64Char (value / 64)]
  | a :: b :: c :: rest =>
    let value := a.toNat * 65536 + b.toNat * 256 + c.toNat
    base64Char (value / 262144) :: base64Char (value / 4096) :: base64Char (value / 64) ::
      base64Char value :: base64Chars rest

def base64Encode (bytes : List UInt8) : String := String.ofList (base64Chars bytes)

def base64EncodedLen (inputLen : Nat) : Nat :=
  let full := inputLen / 3
  let remaining := inputLen % 3
  full * 4 + if remaining = 0 then 0 else remaining + 1

inductive HexError
  | oddLength
  | nonHexCharacter
deriving DecidableEq, Repr

/-- The `#[error]` texts. -/
def HexError.text : HexError → String
  | .oddLength => "odd-length hex string"
  | .nonHexCharacter => "non-hex character"

def hexToBytes (text : String) : Except HexError (List UInt8) :=
  if text.utf8ByteSize % 2 ≠ 0 then .error .oddLength
  else match hexDecode text.toList with
    | none => .error .nonHexCharacter
    | some bytes => .ok bytes

def assemblePhc (memoryCost : UInt32) (hexsalt digestB64 : String) : Except HexError String :=
  (hexToBytes hexsalt).map fun saltBytes =>
    "$argon2id$v=19$m=" ++ Nat.repr memoryCost.toNat ++ ",t=1,p=1$" ++ base64Encode saltBytes ++
      "$" ++ digestB64

/-- Everything after the last `$`. -/
def phcDigest (phc : String) : Option String :=
  let digest := (phc.toList.reverse.takeWhile fun c => c ≠ '$').reverse
  if phc.toList.all (fun c => c ≠ '$') || digest.isEmpty then none
  else some (String.ofList digest)

theorem base64Char_ne_dollar (value : Nat) : base64Char value ≠ '$' := by
  have hmem : base64Char value ∈ BASE64_CHARS := by
    unfold base64Char
    have hlt : value % 64 < BASE64_CHARS.length := Nat.mod_lt _ (by decide)
    rw [List.getD_eq_getElem?_getD, List.getElem?_eq_getElem hlt, Option.getD_some]
    exact List.getElem_mem hlt
  intro h
  rw [h] at hmem
  revert hmem
  decide

theorem not_dollar_of_mem_base64Chars {bytes : List UInt8} {c : Char}
    (h : c ∈ base64Chars bytes) : c ≠ '$' := by
  induction bytes using base64Chars.induct with
  | case1 => cases h
  | case2 a =>
    simp only [base64Chars, List.mem_cons, List.not_mem_nil, or_false] at h
    rcases h with rfl | rfl <;> exact base64Char_ne_dollar _
  | case3 a b =>
    simp only [base64Chars, List.mem_cons, List.not_mem_nil, or_false] at h
    rcases h with rfl | rfl | rfl <;> exact base64Char_ne_dollar _
  | case4 a b c rest ih =>
    simp only [base64Chars, List.mem_cons] at h
    rcases h with rfl | rfl | rfl | rfl | h
    · exact base64Char_ne_dollar _
    · exact base64Char_ne_dollar _
    · exact base64Char_ne_dollar _
    · exact base64Char_ne_dollar _
    · exact ih h

theorem base64Chars_ne_nil {bytes : List UInt8} (h : bytes ≠ []) : base64Chars bytes ≠ [] := by
  cases bytes using base64Chars.induct with
  | case1 => exact absurd rfl h
  | case2 a => simp [base64Chars]
  | case3 a b => simp [base64Chars]
  | case4 a b c rest => simp [base64Chars]

/-- The digest comes back out of the PHC text it was put in. -/
theorem phcDigest_assemblePhc {memoryCost : UInt32} {hexsalt digest phc : String}
    (hne : digest ≠ "") (hdollar : '$' ∉ digest.toList)
    (h : assemblePhc memoryCost hexsalt digest = .ok phc) : phcDigest phc = some digest := by
  have hphc : ∃ front : List Char, phc.toList = front ++ '$' :: digest.toList := by
    unfold assemblePhc at h
    rcases hsalt : hexToBytes hexsalt with e | saltBytes
    · rw [hsalt] at h
      cases h
    · rw [hsalt] at h
      obtain rfl := Except.ok.inj h
      refine ⟨("$argon2id$v=19$m=" ++ Nat.repr memoryCost.toNat ++ ",t=1,p=1$" ++
        base64Encode saltBytes).toList, ?_⟩
      simp [String.toList_append]
  obtain ⟨front, hphc⟩ := hphc
  have htake : (phc.toList.reverse.takeWhile fun c => c ≠ '$').reverse = digest.toList := by
    have hall : ∀ c ∈ digest.toList.reverse, decide (c ≠ '$') = true := fun c hc =>
      decide_eq_true fun hc' => hdollar (hc' ▸ List.mem_reverse.1 hc)
    rw [hphc, List.reverse_append, List.reverse_cons, List.append_assoc,
      List.takeWhile_append_of_pos hall]
    simp
  have hfront : phc.toList.all (fun c => c ≠ '$') = false := by
    rw [hphc]
    simp
  have hempty : digest.toList.isEmpty = false := by simpa using hne
  unfold phcDigest
  dsimp only
  rw [htake, hfront, hempty, String.ofList_toList]
  rfl

theorem phcDigest_of_assemblePhc {memoryCost : UInt32} {hexsalt phc : String} {bytes : List UInt8}
    (hne : bytes ≠ []) (h : assemblePhc memoryCost hexsalt (base64Encode bytes) = .ok phc) :
    phcDigest phc = some (base64Encode bytes) := by
  have htext : (base64Encode bytes).toList = base64Chars bytes := String.toList_ofList
  refine phcDigest_assemblePhc (fun hempty => base64Chars_ne_nil hne ?_) (fun hdollar => ?_) h
  · rw [← htext, hempty]
    rfl
  · rw [htext] at hdollar
    exact not_dollar_of_mem_base64Chars hdollar rfl

/-! ## Matching -/

def isAsciiUppercase (c : Char) : Bool := 'A' ≤ c && c ≤ 'Z'

/-- At least 50 uppercase letters. -/
def isSuperblockHash (hash : String) : Bool := decide (50 ≤ hash.toList.countP isAsciiUppercase)

/-- `XUNI` and a digit, anywhere in the text. -/
def hasXuniMatch (hash : String) : Bool := go hash.toList
where
  go : List Char → Bool
    | [] => false
    | c :: cs => (match c :: cs with
        | 'X' :: 'U' :: 'N' :: 'I' :: d :: _ => isAsciiDigit d
        | _ => false) || go cs

inductive FindClass
  | normal
  | superblock
  | xuni
deriving DecidableEq, Repr

/-- XUNI goes first: it is never credited as a superblock. -/
def classifyFind (digest : String) : FindClass :=
  if hasXuniMatch digest then .xuni
  else if isSuperblockHash digest then .superblock
  else .normal

end TreeMiner
