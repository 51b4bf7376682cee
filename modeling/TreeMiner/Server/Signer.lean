import TreeMiner.Platform.Envelope
import TreeMiner.Platform.Render

/-! The platform side of the command envelope: `command_signing.py`, and the text the
broker publishes. -/

namespace TreeMiner.Server

open Lib Lib.Json

/-- An `int` or a `float`; a `bool` is none of them here. -/
inductive PyNumber
  | int (n : Int)
  | float (x : F64)
deriving DecidableEq, Repr

abbrev PyValue := JsonTree PyNumber

/-- A `dict` of JSON values: no key twice, in it or in any `dict` inside. -/
structure Message where
  members : List (String × PyValue)
  distinct : (JsonTree.object members).Distinct

/-- The members but `auth`. -/
def Message.body (message : Message) : List (String × PyValue) :=
  message.members.filter fun m => m.1 ≠ "auth"

inductive CommandSigningError
  | secretMissing
  | notSignable (message : String)
deriving DecidableEq, Repr

/-! ## Validation -/

def isIdAllowed (c : Char) : Bool := isAsciiAlphanumeric c || c = '.' || c = '_' || c = '-'

def isSafeIdentifier (value : String) (minLen maxLen : Nat) : Bool :=
  decide (minLen ≤ value.length) && decide (value.length ≤ maxLen) &&
    value.toList.all isIdAllowed

def isHexString (value : String) (minLen maxLen : Nat) : Bool :=
  decide (minLen ≤ value.length) && decide (value.length ≤ maxLen) &&
    value.toList.all isAsciiHexdigit

/-! ## `json.dumps` -/

/-- One character of a string as `json.dumps` writes it. -/
def encodeChar (ensureAscii : Bool) (c : Char) : List Char :=
  if c = '"' then ['\\', '"']
  else if c = '\\' then ['\\', '\\']
  else if c = '\x08' then ['\\', 'b']
  else if c = '\x0c' then ['\\', 'f']
  else if c = '\n' then ['\\', 'n']
  else if c = '\r' then ['\\', 'r']
  else if c = '\t' then ['\\', 't']
  else if c.toNat < 0x20 then '\\' :: 'u' :: hexPad4 c.toNat
  else if ensureAscii && decide (0x7e < c.toNat) then
    if c.toNat < 0x10000 then '\\' :: 'u' :: hexPad4 c.toNat
    else '\\' :: 'u' :: (hexPad4 (0xd800 + (c.toNat - 0x10000) / 0x400) ++
      '\\' :: 'u' :: hexPad4 (0xdc00 + (c.toNat - 0x10000) % 0x400))
  else [c]

theorem hexPad4_read {n : Nat} (hn : n < 0x10000) {s : List Char} {ps : List Piece} {r : List Char}
    (h : StrBody s ps r) : StrBody ('\\' :: 'u' :: (hexPad4 n ++ s)) (.unit n :: ps) r := by
  have hdigit := fun n => hexValue_hexDigit (Nat.mod_lt n (by decide : 0 < 16))
  have hval : ((n / 4096 % 16 * 16 + n / 256 % 16) * 16 + n / 16 % 16) * 16 + n % 16 = n := by
    omega
  have := StrBody.unicode (hdigit (n / 4096)) (hdigit (n / 256)) (hdigit (n / 16)) (hdigit n) h
  rwa [hval] at this

/-- Without `ensure_ascii`, the escapes are those of `serde_json`. -/
theorem encodeChar_false : encodeChar false = escape := by
  funext c
  unfold encodeChar escape
  simp

theorem decodeString_scalar (c : Char) (ps : List Piece) :
    decodeString (.unit c.toNat :: ps) = (decodeString ps).map (c :: ·) := by
  have hvalid := c.valid
  have h1 : ¬ (0xd800 ≤ c.toNat ∧ c.toNat ≤ 0xdbff) := by
    rcases hvalid with h | h <;> (unfold Char.toNat; omega)
  have h2 : ¬ (0xdc00 ≤ c.toNat ∧ c.toNat ≤ 0xdfff) := by
    rcases hvalid with h | h <;> (unfold Char.toNat; omega)
  rw [decodeString.eq_def]
  simp only [h1, h2, if_false, Char.ofNat_toNat]

theorem decodeString_pair {c : Char} (hc : 0x10000 ≤ c.toNat) (ps : List Piece) :
    decodeString (.unit (0xd800 + (c.toNat - 0x10000) / 0x400) ::
      .unit (0xdc00 + (c.toNat - 0x10000) % 0x400) :: ps) = (decodeString ps).map (c :: ·) := by
  have hmax : c.toNat < 0x110000 := by
    rcases c.valid with h | h <;> (unfold Char.toNat; omega)
  have h1 : 0xd800 ≤ 0xd800 + (c.toNat - 0x10000) / 0x400 ∧
      0xd800 + (c.toNat - 0x10000) / 0x400 ≤ 0xdbff := by omega
  have h2 : 0xdc00 ≤ 0xdc00 + (c.toNat - 0x10000) % 0x400 ∧
      0xdc00 + (c.toNat - 0x10000) % 0x400 ≤ 0xdfff := by omega
  have hval : 0x10000 + (0xd800 + (c.toNat - 0x10000) / 0x400 - 0xd800) * 0x400 +
      (0xdc00 + (c.toNat - 0x10000) % 0x400 - 0xdc00) = c.toNat := by omega
  rw [decodeString.eq_def]
  simp only [h1, h2, and_self, if_true, hval, Char.ofNat_toNat]

/-- What `ensure_ascii` changes. -/
theorem encodeChar_nonAscii {c : Char} (hc : 0x7e < c.toNat) : encodeChar true c =
    if c.toNat < 0x10000 then '\\' :: 'u' :: hexPad4 c.toNat
    else '\\' :: 'u' :: (hexPad4 (0xd800 + (c.toNat - 0x10000) / 0x400) ++
      '\\' :: 'u' :: hexPad4 (0xdc00 + (c.toNat - 0x10000) % 0x400)) := by
  have hne : ∀ d : Char, d.toNat ≤ 0x7e → c ≠ d := by
    rintro d hd rfl
    omega
  have hlow : ¬ c.toNat < 0x20 := by omega
  unfold encodeChar
  rw [if_neg (hne _ (by decide)), if_neg (hne _ (by decide)), if_neg (hne _ (by decide)),
    if_neg (hne _ (by decide)), if_neg (hne _ (by decide)), if_neg (hne _ (by decide)),
    if_neg (hne _ (by decide)), if_neg hlow, if_pos (by simp [hc])]

theorem encodeChar_read (ensureAscii : Bool) (c : Char) : ∃ p : List Piece,
    (∀ s ps r, StrBody s ps r → StrBody (encodeChar ensureAscii c ++ s) (p ++ ps) r) ∧
      ∀ ps, decodeString (p ++ ps) = (decodeString ps).map (c :: ·) := by
  by_cases h : ensureAscii = true ∧ 0x7e < c.toNat
  · obtain ⟨rfl, hc⟩ := h
    rw [encodeChar_nonAscii hc]
    split_ifs with hb
    · exact ⟨[.unit c.toNat], fun s ps r hs => hexPad4_read hb hs, decodeString_scalar c⟩
    · have hmax : c.toNat < 0x110000 := by
        rcases c.valid with h | h <;> (unfold Char.toNat; omega)
      refine ⟨[.unit _, .unit _], fun s ps r hs => ?_, decodeString_pair (by omega)⟩
      have hlow := hexPad4_read (n := 0xdc00 + (c.toNat - 0x10000) % 0x400) (by omega) hs
      have hhigh := hexPad4_read (n := 0xd800 + (c.toNat - 0x10000) / 0x400) (by omega) hlow
      simpa only [List.cons_append, List.append_assoc, List.nil_append] using hhigh
  · have hescape : encodeChar ensureAscii c = escape c := by
      rw [← encodeChar_false]
      unfold encodeChar
      cases ensureAscii with
      | false => rfl
      | true => simp [show ¬ 0x7e < c.toNat from fun hc => h ⟨rfl, hc⟩]
    obtain ⟨p, hread, hp⟩ := escape_read c
    exact ⟨[p], fun s ps r hs => hescape ▸ hread s ps r hs, hp⟩

/-- `ensure_ascii`, and the blank of the default separators. -/
def pythonStyle (ensureAscii : Bool) (blank : List Char)
    (hblank : ∀ c ∈ blank, Lib.Json.isWs c = true) : Style where
  gap := blank
  escape := encodeChar ensureAscii
  gap_ws := hblank
  escape_read c := encodeChar_read ensureAscii c

theorem blank_nil : ∀ c ∈ ([] : List Char), Lib.Json.isWs c = true := by simp

/-- `separators=(",", ":"), ensure_ascii=False` -/
def compactStyle : Style := pythonStyle false [] blank_nil

/-- The style of `json.dumps` without arguments. -/
def defaultStyle : Style := pythonStyle true [' '] (by simp [Lib.Json.isWs])

/-! ## Canonicalisation -/

mutual

/-- The interpreter's own limits, on recursion and on the digits of an `int`, only refuse
more; they are left out. -/
def rejectUncanonicalisable (path : String) : PyValue → Except CommandSigningError Unit
  | .number (.float _) => .error (.notSignable (
      s!"Cannot sign a command containing a floating-point value at {path}: " ++
      "float JSON text is not byte-identical across the platform and miner " ++
      "implementations. Send an integer or a string instead."))
  | .object ms => rejectMembers path ms
  | .array ds => rejectItems path 0 ds
  | _ => .ok ()

def rejectMembers (path : String) : List (String × PyValue) → Except CommandSigningError Unit
  | [] => .ok ()
  | (key, value) :: ms => do
    rejectUncanonicalisable s!"{path}.{key}" value
    rejectMembers path ms

def rejectItems (path : String) (index : Nat) : List PyValue → Except CommandSigningError Unit
  | [] => .ok ()
  | value :: ds => do
    rejectUncanonicalisable s!"{path}[{index}]" value
    rejectItems path (index + 1) ds

end

/-! ## The secret -/

/-- `str.isspace` -/
def isSpace (c : Char) : Bool :=
  isWhitespace c || (decide (0x1c ≤ c.toNat) && decide (c.toNat ≤ 0x1f))

/-- `str.strip` -/
def strip (s : String) : String :=
  String.ofList ((s.toList.dropWhile isSpace).reverse.dropWhile isSpace).reverse

/-- The variable's value, `none` where it is not set. -/
def loadCommandSecret (env : Option String) : Except CommandSigningError String :=
  let secret := strip (env.getD "")
  if secret.isEmpty then .error .secretMissing else .ok secret

/-! ## Signer -/

def signingString (workerId commandId : String) (issuedAt expiresAt : Int)
    (nonce body : String) : String :=
  s!"TMv1\n{workerId}\n{commandId}\n{issuedAt}\n{expiresAt}\n{nonce}\n{body}"

structure CommandSigner where
  lifetimeSec : Int
  /-- oldest first -/
  recentNonces : List String
  lifetime_valid : 1 ≤ lifetimeSec ∧ lifetimeSec ≤ MAX_LIFETIME_SEC

/-- What one `sign` reads from outside: the draws of `nonce_factory`, `command_id_factory`
and the clock's reading as an `int`. -/
structure Sources where
  nonce : Nat → String
  commandId : Message → String
  clock : Int

def RECENT_NONCE_CAPACITY : Nat := 4096

def rememberNonce (recent : List String) (nonce : String) : List String :=
  let recent := recent ++ [nonce]
  recent.drop (recent.length - RECENT_NONCE_CAPACITY)

/-- The draws from `i` on, as many as there are tries left. -/
def freshNonce (recent : List String) (draw : Nat → String) (i : Nat) :
    Nat → Except CommandSigningError (String × List String)
  | 0 => .error (.notSignable "Could not generate a unique nonce; the nonce source is repeating")
  | tries + 1 =>
    if !isHexString (draw i) MIN_NONCE_HEX_LEN MAX_NONCE_HEX_LEN then
      .error (.notSignable
        s!"nonce must be {MIN_NONCE_HEX_LEN}..{MAX_NONCE_HEX_LEN} hex characters")
    else if draw i ∈ recent then freshNonce recent draw (i + 1) tries
    else .ok (draw i, rememberNonce recent (draw i))

section

-- `float.__repr__`, and the MAC.
variable (floatRepr : F64 → List Char) (hmacSha256 : String → String → Vector UInt8 32)

def numberText : PyNumber → List Char
  | .int n => (toString n).toList
  | .float x => floatRepr x

/-- The message minus `auth`, as the miner will write it. -/
def canonicalBody (message : Message) : Except CommandSigningError String := do
  rejectUncanonicalisable "$" (.object message.body)
  return String.ofList
    (compactStyle.write ((JsonTree.object message.body).map (numberText floatRepr)).norm)

def authMember (workerId commandId : String) (issuedAt expiresAt : Int) (nonce sig : String) :
    PyValue :=
  .object [("worker_id", .string workerId), ("command_id", .string commandId),
    ("issued_at", .number (.int issuedAt)), ("expires_at", .number (.int expiresAt)),
    ("nonce", .string nonce), ("sig", .string sig)]

/-- `CommandSigner.sign`: the signed message and the nonces remembered. -/
def sign (signer : CommandSigner) (env : Option String) (src : Sources) (message : Message)
    (workerId : String) (commandId : Option String) (lifetimeSec : Option Int) :
    Except CommandSigningError (PyValue × List String) := do
  let secret ← loadCommandSecret env
  if !isSafeIdentifier workerId 1 MAX_ID_LEN then
    throw (.notSignable s!"worker_id must be 1..{MAX_ID_LEN} characters of [A-Za-z0-9._-]")
  let cid := commandId.getD (src.commandId message)
  if !isSafeIdentifier cid 1 MAX_ID_LEN then
    throw (.notSignable s!"command_id must be 1..{MAX_ID_LEN} characters of [A-Za-z0-9._-]")
  let window := lifetimeSec.getD signer.lifetimeSec
  if ¬ (1 ≤ window ∧ window ≤ MAX_LIFETIME_SEC) then
    throw (.notSignable s!"lifetime must be in 1..{MAX_LIFETIME_SEC} seconds, got {window}")
  let body ← canonicalBody floatRepr message
  let (nonce, recent) ← freshNonce signer.recentNonces src.nonce 0 8
  let issuedAt := src.clock
  let expiresAt := issuedAt + window
  let sig := hmacSha256Hex hmacSha256 secret
    (signingString workerId cid issuedAt expiresAt nonce body)
  return (.object (message.body ++
    [("auth", authMember workerId cid issuedAt expiresAt nonce sig)]), recent)

/-- The bytes of `_publish_raw`, as text. -/
def wire (payload : PyValue) : String :=
  String.ofList (defaultStyle.write (payload.map (numberText floatRepr)))

end

end TreeMiner.Server
