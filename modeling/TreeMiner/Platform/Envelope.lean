import Mathlib.Data.List.AList
import TreeMiner.Core.Value

/-! The signed-command envelope of `tm-platform`: the bounded replay cache and the
verification order schema, addressing, time window, signature, replay. -/

namespace TreeMiner

def MAX_PAYLOAD_BYTES : Nat := 64 * 1024

def MAX_LIFETIME_SEC : Int := 15 * 60

def CLOCK_SKEW_SEC : Int := 30

def MIN_NONCE_HEX_LEN : Nat := 16

def MAX_NONCE_HEX_LEN : Nat := 128

def MAX_ID_LEN : Nat := 128

def isHexString (s : String) (minLen maxLen : Nat) : Bool :=
  decide (minLen ≤ s.utf8ByteSize) && decide (s.utf8ByteSize ≤ maxLen) &&
    s.toList.all isAsciiHexdigit

def isSafeIdentifier (s : String) (minLen maxLen : Nat) : Bool :=
  decide (minLen ≤ s.utf8ByteSize) && decide (s.utf8ByteSize ≤ maxLen) &&
    s.toList.all fun c => isAsciiAlphanumeric c || c = '.' || c = '_' || c = '-'

def isPrintableAscii (s : String) (minLen maxLen : Nat) : Bool :=
  decide (minLen ≤ s.utf8ByteSize) && decide (s.utf8ByteSize ≤ maxLen) &&
    s.toList.all fun c => decide (0x20 ≤ c.toNat) && decide (c.toNat ≤ 0x7e)

/-- Case-insensitive equality of two hex digests, as decoded bytes. -/
def constantTimeHexEquals (a b : String) : Bool :=
  a.utf8ByteSize = b.utf8ByteSize &&
    match hexDecode a.toList, hexDecode b.toList with
    | some x, some y => x = y
    | _, _ => false

/-! ## Bounded replay cache -/

/-- Accepted nonces with their expiry, and the order they came in. The map cannot
hold a nonce twice. -/
structure NonceCache where
  capacity : Nat
  byNonce : AList fun _ : String => Int
  insertionOrder : List String

namespace NonceCache

def new (capacity : Nat) : NonceCache := ⟨max capacity 1, ∅, []⟩

def len (c : NonceCache) : Nat := c.byNonce.entries.length

def containsKey (c : NonceCache) (nonce : String) : Bool := (c.byNonce.lookup nonce).isSome

/-- The sweep of `purge_expired`: it stops at the first front entry still live. -/
def purgeLoop (now : Int) : List String → (AList fun _ : String => Int) →
    List String × (AList fun _ : String => Int)
  | [], m => ([], m)
  | front :: rest, m =>
    match m.lookup front with
    | some expiresAt =>
      if expiresAt > now then (front :: rest, m) else purgeLoop now rest (m.erase front)
    | none => purgeLoop now rest m

def purgeExpired (c : NonceCache) (now : Int) : NonceCache :=
  let r := purgeLoop now c.insertionOrder c.byNonce
  { c with insertionOrder := r.1, byNonce := r.2 }

/-- The eviction loop of `check_and_insert`. -/
def evictLoop (capacity : Nat) : List String → (AList fun _ : String => Int) →
    List String × (AList fun _ : String => Int)
  | [], m => ([], m)
  | oldest :: rest, m =>
    if m.entries.length ≥ capacity then evictLoop capacity rest (m.erase oldest)
    else (oldest :: rest, m)

/-- `true` and the nonce recorded if it is fresh, `false` if it was seen. -/
def checkAndInsert (c : NonceCache) (nonce : String) (expiresAt now : Int) :
    Bool × NonceCache :=
  let c := c.purgeExpired now
  if c.containsKey nonce then (false, c)
  else
    let r := evictLoop c.capacity c.insertionOrder c.byNonce
    (true, { c with byNonce := r.2.insert nonce expiresAt, insertionOrder := r.1 ++ [nonce] })

end NonceCache

/-! ## Verification -/

inductive VerifyStatus
  | ok
  | missingAuth
  | malformedAuth
  | wrongWorker
  | issuedInFuture
  | lifetimeInvalid
  | expired
  | badSignature
  | replayedNonce
deriving DecidableEq, Repr

def VerifyStatus.name : VerifyStatus → String
  | .ok => "ok"
  | .missingAuth => "missing auth envelope"
  | .malformedAuth => "malformed auth envelope"
  | .wrongWorker => "wrong worker id"
  | .issuedInFuture => "issued in the future"
  | .lifetimeInvalid => "invalid lifetime"
  | .expired => "expired"
  | .badSignature => "bad signature"
  | .replayedNonce => "replayed nonce"

def int64Field (obj : Value) (key : String) : Option Int :=
  match obj.get key with
  | some (.number n) => n.asI64
  | _ => none

def stringField (obj : Value) (key : String) : Option String :=
  match obj.get key with
  | some (.string s) => some s
  | _ => none

/-- The exact text the MAC covers. -/
def signingString (workerId commandId : String) (issuedAt expiresAt : Int)
    (nonce body : String) : String :=
  s!"TMv1\n{workerId}\n{commandId}\n{issuedAt}\n{expiresAt}\n{nonce}\n{body}"

section

-- The primitives the crate imports: HMAC-SHA256 and `Value`'s compact rendering.
variable (hmacSha256 : String → String → Vector UInt8 32) (render : Value → String)

def hmacSha256Hex (key data : String) : String := hexEncode (hmacSha256 key data).toList

/-- The message without `auth`, rendered compactly with sorted keys. -/
def canonicalBody (msg : Value) : String := render (msg.remove "auth")

/-- The reference signer. -/
def signCommand (msg : Value) (secret workerId commandId nonce : String)
    (issuedAt expiresAt : Int) : Value :=
  let sig := hmacSha256Hex hmacSha256 secret
    (signingString workerId commandId issuedAt expiresAt nonce (canonicalBody render msg))
  msg.insert "auth" (.object [("command_id", .string commandId),
    ("expires_at", .number (.int expiresAt)), ("issued_at", .number (.int issuedAt)),
    ("nonce", .string nonce), ("sig", .string sig), ("worker_id", .string workerId)])

/-- Stages 1 to 4 of `verify_envelope`: everything but the replay cache. On success,
the nonce and its expiry go on to the cache. -/
def checkEnvelope (msg : Value) (secret expectedWorkerId : String) (now : Int) :
    Except VerifyStatus (String × Int) :=
  if !msg.isObject then .error .missingAuth
  else
    match msg.get "auth" with
    | none => .error .missingAuth
    | some auth =>
      if !auth.isObject then .error .malformedAuth
      else
        -- 1. Schema.
        match stringField auth "worker_id", stringField auth "command_id",
          stringField auth "nonce", stringField auth "sig",
          int64Field auth "issued_at", int64Field auth "expires_at" with
        | some workerId, some commandId, some nonce, some sig, some issuedAt, some expiresAt =>
          if !isSafeIdentifier workerId 1 MAX_ID_LEN || !isSafeIdentifier commandId 1 MAX_ID_LEN
              || !isHexString nonce MIN_NONCE_HEX_LEN MAX_NONCE_HEX_LEN
              || !isHexString sig 64 64 then .error .malformedAuth
          -- 2. Addressing.
          else if workerId ≠ expectedWorkerId then .error .wrongWorker
          -- 3. Time window.
          else if issuedAt > satAdd now CLOCK_SKEW_SEC then .error .issuedInFuture
          else if expiresAt ≤ issuedAt ∨ satSub expiresAt issuedAt > MAX_LIFETIME_SEC then
            .error .lifetimeInvalid
          else if now > expiresAt then .error .expired
          -- 4. Signature.
          else if !constantTimeHexEquals sig (hmacSha256Hex hmacSha256 secret
              (signingString workerId commandId issuedAt expiresAt nonce
                (canonicalBody render msg))) then .error .badSignature
          else .ok (nonce, expiresAt)
        | _, _, _, _, _, _ => .error .malformedAuth

/-- `verify_envelope`: the nonce is consumed only when everything else passed. -/
def verifyEnvelope (msg : Value) (secret expectedWorkerId : String) (now : Int)
    (nonces : NonceCache) : VerifyStatus × NonceCache :=
  match checkEnvelope hmacSha256 render msg secret expectedWorkerId now with
  | .error status => (status, nonces)
  | .ok (nonce, expiresAt) =>
    match nonces.checkAndInsert nonce expiresAt now with
    | (true, nonces) => (.ok, nonces)
    | (false, nonces) => (.replayedNonce, nonces)

end

/-- `is_mutating_command`: what a rig without a secret refuses. Whatever is not known to
be harmless counts as mutating. -/
def isMutatingCommand (msg : Value) : Bool :=
  if !msg.isObject then true
  else
    let command := (stringField msg "command").getD ""
    if command = "register_ack" ∨ command = "release" then false
    else if command.isEmpty then
      let action := (stringField msg "action").getD ""
      !(action = "pause" || action = "resume")
    else true

end TreeMiner
