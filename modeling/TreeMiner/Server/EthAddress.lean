import TreeMiner.Core.Address

/-! The server's check of an address (`eth_address.py`), beside the miner's. -/

namespace TreeMiner.Server

/-- `_ADDRESS_RE.match`; its `$` also matches in front of a line feed that ends the text. -/
def matchesAddressRe : List Char → Bool
  | '0' :: 'x' :: body =>
    (decide (body.length = 40) || decide (body.length = 41) && decide (body.drop 40 = ['\n'])) &&
      (body.take 40).all isAsciiHexdigit
  | _ => false

section

variable (keccak256 : List UInt8 → Vector UInt8 32)

def toChecksumAddress (address : String) : Option (List Char) :=
  if !matchesAddressRe address.toList then none
  else
    let body := (address.toList.drop 2).map toAsciiLowercase
    let digest := keccak256Hex keccak256 (String.ofList body)
    some ('0' :: 'x' :: (body.zip digest).map fun p =>
      if '8' ≤ p.2 then toAsciiUppercase p.1 else p.1)

def isValidEthereumAddress (address : String) : Bool :=
  match toChecksumAddress keccak256 address with
  | some checksummed => checksummed = address.toList
  | none => false

theorem matchesAddressRe_iff {cs : List Char} :
    matchesAddressRe cs = true ↔ ∃ body tail, cs = '0' :: 'x' :: (body ++ tail) ∧
      body.length = 40 ∧ body.all isAsciiHexdigit = true ∧ (tail = [] ∨ tail = ['\n']) := by
  constructor
  · intro h
    unfold matchesAddressRe at h
    split at h
    · rename_i body
      rw [Bool.and_eq_true, Bool.or_eq_true, Bool.and_eq_true, decide_eq_true_eq,
        decide_eq_true_eq, decide_eq_true_eq] at h
      obtain ⟨hlen | ⟨hlen, hdrop⟩, hhex⟩ := h
      · refine ⟨body, [], by rw [List.append_nil], hlen, ?_, Or.inl rfl⟩
        rwa [List.take_of_length_le (Nat.le_of_eq hlen)] at hhex
      · refine ⟨body.take 40, ['\n'], ?_, ?_, hhex, Or.inr rfl⟩
        · rw [← hdrop, List.take_append_drop]
        · rw [List.length_take, hlen]
          rfl
    · cases h
  · rintro ⟨body, tail, rfl, hlen, hhex, rfl | rfl⟩
    · simp [matchesAddressRe, hlen, hhex, List.take_of_length_le]
    · have htake : (body ++ ['\n']).take 40 = body := by
        rw [← hlen, List.take_left]
      have hdrop : (body ++ ['\n']).drop 40 = ['\n'] := by
        rw [← hlen, List.drop_left]
      simp [matchesAddressRe, htake, hdrop, hlen, hhex]

/-- What the server takes for an address: the letters are cased by the hash of what stands
behind the `0x`, a line feed included. -/
theorem isValidEthereumAddress_iff {address : String} :
    isValidEthereumAddress keccak256 address = true ↔
      ∃ body tail : List Char, address.toList = '0' :: 'x' :: (body ++ tail) ∧
        body.length = 40 ∧ body.all isAsciiHexdigit = true ∧ (tail = [] ∨ tail = ['\n']) ∧
        CasedBy (keccak256Hex keccak256
          (String.ofList ((body ++ tail).map toAsciiLowercase))) (body ++ tail) := by
  unfold isValidEthereumAddress toChecksumAddress
  by_cases hmatch : matchesAddressRe address.toList = true
  · obtain ⟨body, tail, haddress, hlen, hhex, htail⟩ := matchesAddressRe_iff.1 hmatch
    have hshort : (body ++ tail).length ≤ 64 := by
      rw [List.length_append, hlen]
      rcases htail with rfl | rfl <;> decide
    rw [hmatch, if_neg (by decide : ¬ (!true) = true)]
    dsimp only
    rw [haddress, decide_eq_true_eq, List.drop_succ_cons, List.drop_succ_cons, List.drop_zero,
      List.cons.injEq, List.cons.injEq, and_iff_right rfl, and_iff_right rfl,
      recased_text_iff (by rwa [keccak256Hex_length])]
    constructor
    · intro hcased
      exact ⟨body, tail, rfl, hlen, hhex, htail, hcased⟩
    · rintro ⟨body', tail', heq, -, -, -, hcased⟩
      have hsame : body ++ tail = body' ++ tail' := by simpa using heq
      rw [hsame]
      exact hcased
  · refine iff_of_false ?_ ?_
    · rw [Bool.not_eq_true] at hmatch
      rw [hmatch, if_pos (by decide : (!false) = true)]
      exact Bool.false_ne_true
    · rintro ⟨body, tail, haddress, hlen, hhex, htail, -⟩
      exact hmatch (matchesAddressRe_iff.2 ⟨body, tail, haddress, hlen, hhex, htail⟩)

theorem address_length_le {address : String}
    (h : isValidEthereumAddress keccak256 address = true) : address.length ≤ 43 := by
  obtain ⟨body, tail, haddress, hlen, -, htail, -⟩ := (isValidEthereumAddress_iff keccak256).1 h
  rw [← String.length_toList, haddress, List.length_cons, List.length_cons, List.length_append,
    hlen]
  rcases htail with rfl | rfl <;> decide

theorem getLast_of_hex {body : List Char} (hlen : body.length = 40)
    (hhex : body.all isAsciiHexdigit = true) :
    ('0' :: 'x' :: body).getLast? ≠ some '\n' := by
  have hne : body ≠ [] := by
    rintro rfl
    cases hlen
  rw [List.getLast?_cons_cons, List.getLast?_cons_of_ne_nil hne]
  intro hlast
  exact absurd (List.all_eq_true.1 hhex _ (List.mem_of_getLast? hlast)) (by decide)

/-- Both sides agree on an address that ends in no line feed, and the rig takes no other. -/
theorem address_rig_iff {address : String}
    (h : isValidEthereumAddress keccak256 address = true) :
    TreeMiner.isValidEthereumAddress keccak256 address = true ↔
      address.toList.getLast? ≠ some '\n' := by
  obtain ⟨body, tail, haddress, hlen, hhex, htail, hcased⟩ :=
    (isValidEthereumAddress_iff keccak256).1 h
  rw [TreeMiner.isValidEthereumAddress_iff]
  rcases htail with rfl | rfl
  · rw [List.append_nil] at haddress hcased
    refine iff_of_true ⟨body, haddress, hlen, hhex, hcased⟩ ?_
    rw [haddress]
    exact getLast_of_hex hlen hhex
  · have hlast : address.toList.getLast? = some '\n' := by
      rw [haddress, ← List.cons_append, ← List.cons_append, List.getLast?_concat]
    refine iff_of_false ?_ fun hne => hne hlast
    rintro ⟨body', haddress', hlen', hhex', -⟩
    rw [haddress'] at hlast
    exact getLast_of_hex hlen' hhex' hlast

/-! ## The two checks -/

/-- Forty hex digits and a line feed, the digits cased by the hash of both. -/
def LineFeedForm (address : String) : Prop :=
  ∃ body : List Char, address.toList = '0' :: 'x' :: (body ++ ['\n']) ∧ body.length = 40 ∧
    body.all isAsciiHexdigit = true ∧
    CasedBy (keccak256Hex keccak256 (String.ofList ((body ++ ['\n']).map toAsciiLowercase)))
      (body ++ ['\n'])

/-- The server answers as the miner does on every other text. -/
theorem validators_agree_iff (address : String) :
    isValidEthereumAddress keccak256 address =
        TreeMiner.isValidEthereumAddress keccak256 address ↔
      ¬ LineFeedForm keccak256 address := by
  constructor
  · rintro hagree ⟨body, haddress, hlen, hhex, hcased⟩
    have hserver : isValidEthereumAddress keccak256 address = true :=
      (isValidEthereumAddress_iff keccak256).2
        ⟨body, ['\n'], haddress, hlen, hhex, Or.inr rfl, hcased⟩
    refine (address_rig_iff keccak256 hserver).1 (hagree.symm.trans hserver) ?_
    rw [haddress, ← List.cons_append, ← List.cons_append, List.getLast?_concat]
  · intro hform
    rw [Bool.eq_iff_iff, isValidEthereumAddress_iff, TreeMiner.isValidEthereumAddress_iff]
    constructor
    · rintro ⟨body, tail, haddress, hlen, hhex, rfl | rfl, hcased⟩
      · rw [List.append_nil] at haddress hcased
        exact ⟨body, haddress, hlen, hhex, hcased⟩
      · exact absurd ⟨body, haddress, hlen, hhex, hcased⟩ hform
    · rintro ⟨body, haddress, hlen, hhex, hcased⟩
      refine ⟨body, [], ?_, hlen, hhex, Or.inl rfl, ?_⟩ <;> rwa [List.append_nil]

end

/-- The null address with a line feed behind it. -/
theorem validators_disagree :
    isValidEthereumAddress (fun _ => Vector.replicate 32 0)
        "0x0000000000000000000000000000000000000000\n" = true ∧
      TreeMiner.isValidEthereumAddress (fun _ => Vector.replicate 32 0)
        "0x0000000000000000000000000000000000000000\n" = false := by
  decide

end TreeMiner.Server
