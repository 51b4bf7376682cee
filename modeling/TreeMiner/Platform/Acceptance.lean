import Mathlib.Data.List.Basic
import TreeMiner.Core.Address
import TreeMiner.Platform.Replay

/-! What `verify_envelope` accepts, read off the message: the saturating arithmetic of the
time window never shows, and the text under the MAC has one reading. -/

namespace TreeMiner

/-- The six fields of an `auth` object. -/
structure Auth where
  workerId : String
  commandId : String
  issuedAt : Int
  expiresAt : Int
  nonce : String
  sig : String

namespace Auth

/-- The message is an object whose `auth` object holds these fields at their types. -/
def Carried (a : Auth) (msg : Value) : Prop :=
  msg.isObject = true ∧ ∃ auth, msg.get "auth" = some auth ∧ auth.isObject = true ∧
    stringField auth "worker_id" = some a.workerId ∧
    stringField auth "command_id" = some a.commandId ∧
    stringField auth "nonce" = some a.nonce ∧ stringField auth "sig" = some a.sig ∧
    int64Field auth "issued_at" = some a.issuedAt ∧
    int64Field auth "expires_at" = some a.expiresAt

/-- The character sets of the text fields. -/
structure WellFormed (a : Auth) : Prop where
  workerId : isSafeIdentifier a.workerId 1 MAX_ID_LEN = true
  commandId : isSafeIdentifier a.commandId 1 MAX_ID_LEN = true
  nonce : isHexString a.nonce MIN_NONCE_HEX_LEN MAX_NONCE_HEX_LEN = true
  sig : isHexString a.sig 64 64 = true

/-- The time window over the integers. -/
structure InWindow (a : Auth) (now : Int) : Prop where
  skew : a.issuedAt ≤ now + CLOCK_SKEW_SEC
  order : a.issuedAt < a.expiresAt
  lifetime : a.expiresAt ≤ a.issuedAt + MAX_LIFETIME_SEC
  live : now ≤ a.expiresAt

/-- The text under the MAC, in front of a body. -/
def signed (a : Auth) (body : String) : String :=
  signingString a.workerId a.commandId a.issuedAt a.expiresAt a.nonce body

end Auth

/-! ## The clock -/

theorem int64Field_range {obj : Value} {key : String} {n : Int}
    (h : int64Field obj key = some n) : i64Min ≤ n ∧ n ≤ i64Max := by
  unfold int64Field at h
  split at h
  · rename_i m _
    cases m with
    | int i =>
      rw [Number.asI64] at h
      split_ifs at h with hi
      obtain rfl := Option.some.inj h
      exact hi
    | float x => cases h
  · cases h

theorem Auth.Carried.issuedAt_range {a : Auth} {msg : Value} (h : a.Carried msg) :
    i64Min ≤ a.issuedAt ∧ a.issuedAt ≤ i64Max := by
  obtain ⟨-, auth, -, -, -, -, -, -, hissued, -⟩ := h
  exact int64Field_range hissued

/-- On `i64` readings the saturated bounds are the exact ones: a sum or a difference that
saturates lies beyond every value it is compared with. -/
theorem inWindow_iff {a : Auth} {now : Int} (hnow : i64Min ≤ now ∧ now ≤ i64Max)
    (hissued : i64Min ≤ a.issuedAt ∧ a.issuedAt ≤ i64Max) :
    a.InWindow now ↔ a.issuedAt ≤ satAdd now CLOCK_SKEW_SEC ∧
      (a.issuedAt < a.expiresAt ∧ satSub a.expiresAt a.issuedAt ≤ MAX_LIFETIME_SEC) ∧
      now ≤ a.expiresAt := by
  have hskew : a.issuedAt ≤ satAdd now CLOCK_SKEW_SEC ↔ a.issuedAt ≤ now + CLOCK_SKEW_SEC := by
    unfold satAdd clampI64 CLOCK_SKEW_SEC
    unfold i64Min i64Max at *
    omega
  have hlife : satSub a.expiresAt a.issuedAt ≤ MAX_LIFETIME_SEC ↔
      a.expiresAt ≤ a.issuedAt + MAX_LIFETIME_SEC := by
    unfold satSub clampI64 MAX_LIFETIME_SEC
    unfold i64Min i64Max at *
    omega
  rw [hskew, hlife]
  exact ⟨fun h => ⟨h.skew, ⟨h.order, h.lifetime⟩, h.live⟩,
    fun ⟨hs, ⟨ho, hl⟩, hv⟩ => ⟨hs, ho, hl, hv⟩⟩

/-! ## The signature -/

section

variable {hmacSha256 : String → String → Vector UInt8 32}

theorem utf8ByteSize_hmac (key data : String) :
    (hmacSha256Hex hmacSha256 key data).utf8ByteSize = 64 := by
  unfold hmacSha256Hex
  rw [utf8ByteSize_hexEncode, Vector.length_toList]

theorem isHexString_hmac (key data : String) :
    isHexString (hmacSha256Hex hmacSha256 key data) 64 64 = true := by
  have hall : (hmacSha256Hex hmacSha256 key data).toList.all isAsciiHexdigit = true :=
    List.all_eq_true.2 fun c hc => mem_hexEncode hc
  unfold isHexString
  rw [utf8ByteSize_hmac, hall]
  rfl

/-- Two MACs are equal as texts if they are as bytes. -/
theorem hmac_equals_iff {key data key' data' : String} :
    constantTimeHexEquals (hmacSha256Hex hmacSha256 key data)
      (hmacSha256Hex hmacSha256 key' data') = true ↔
      hmacSha256 key data = hmacSha256 key' data' := by
  unfold constantTimeHexEquals hmacSha256Hex
  rw [utf8ByteSize_hexEncode, utf8ByteSize_hexEncode, hexDecode_hexEncode, hexDecode_hexEncode]
  simp [Vector.toList_inj]

theorem mem_of_isHexString {s : String} {low high : Nat} (h : isHexString s low high = true) :
    low ≤ s.utf8ByteSize ∧ s.utf8ByteSize ≤ high ∧ ∀ c ∈ s.toList, isAsciiHexdigit c = true := by
  unfold isHexString at h
  simpa [and_assoc] using h

/-- A signature field of the right shape is compared with the MAC up to hex case. -/
theorem constantTimeHexEquals_hmac {sig key data : String} (h : isHexString sig 64 64 = true) :
    constantTimeHexEquals sig (hmacSha256Hex hmacSha256 key data) = true ↔
      sig.toList.map toAsciiLowercase = (hmacSha256Hex hmacSha256 key data).toList := by
  obtain ⟨hlow, hhigh, hdigits⟩ := mem_of_isHexString h
  have hsize : sig.utf8ByteSize = 64 := by omega
  have hlen : sig.toList.length = 64 := by
    rw [← utf8ByteSize_of_hexdigits hdigits, hsize]
  obtain ⟨bs, hbs⟩ := hexDecode_isSome (by rw [hlen]) hdigits
  unfold constantTimeHexEquals
  rw [hsize, utf8ByteSize_hmac, hbs]
  unfold hmacSha256Hex
  rw [hexDecode_hexEncode, ← hexDecode_eq_iff hbs]
  simp

end

/-! ## The text under the MAC -/

/-- A field without the delimiter ends at its first occurrence. -/
theorem field_inj {α : Type} {sep : α} {xs ys us vs : List α} (hx : sep ∉ xs) (hy : sep ∉ ys)
    (h : xs ++ sep :: us = ys ++ sep :: vs) : xs = ys ∧ us = vs := by
  induction xs generalizing ys with
  | nil =>
    cases ys with
    | nil => exact ⟨rfl, List.tail_eq_of_cons_eq h⟩
    | cons y ys => exact absurd (List.head_eq_of_cons_eq h ▸ List.mem_cons_self) hy
  | cons x xs ih =>
    cases ys with
    | nil => exact absurd ((List.head_eq_of_cons_eq h).symm ▸ List.mem_cons_self) hx
    | cons y ys =>
      rw [List.mem_cons, not_or] at hx hy
      obtain ⟨rfl, rfl⟩ := ih hx.2 hy.2 (List.tail_eq_of_cons_eq h)
      exact ⟨by rw [List.head_eq_of_cons_eq h], rfl⟩

theorem newline_notMem_of_isSafeIdentifier {s : String} {low high : Nat}
    (h : isSafeIdentifier s low high = true) : '\n' ∉ s.toList := by
  unfold isSafeIdentifier at h
  rw [Bool.and_eq_true, List.all_eq_true] at h
  intro hmem
  exact absurd (h.2 _ hmem) (by decide)

theorem newline_notMem_of_isHexString {s : String} {low high : Nat}
    (h : isHexString s low high = true) : '\n' ∉ s.toList := by
  intro hmem
  exact absurd ((mem_of_isHexString h).2.2 _ hmem) (by decide)

theorem newline_notMem_int (n : Int) : '\n' ∉ (toString n).toList := by
  have hdigits : ∀ m : Nat, '\n' ∉ Nat.toDigits 10 m := fun m hmem =>
    absurd (isAsciiDigit_of_mem_toDigits hmem) (by decide)
  cases n with
  | ofNat m =>
    rw [show (toString (Int.ofNat m)).toList = Nat.toDigits 10 m from Nat.toList_repr]
    exact hdigits m
  | negSucc m =>
    rw [show toString (Int.negSucc m) = "-" ++ Nat.repr (m + 1) from rfl, String.toList_append,
      Nat.toList_repr, List.mem_append, not_or]
    exact ⟨by decide, hdigits _⟩

/-- Envelopes with fields of the right character sets share a signed text only if they
agree in every field of it and in the body behind it. -/
theorem Auth.signed_inj {a b : Auth} {body body' : String} (ha : a.WellFormed) (hb : b.WellFormed)
    (h : a.signed body = b.signed body') :
    a.workerId = b.workerId ∧ a.commandId = b.commandId ∧ a.issuedAt = b.issuedAt ∧
      a.expiresAt = b.expiresAt ∧ a.nonce = b.nonce ∧ body = body' := by
  have htext : ∀ (a : Auth) (body : String), (a.signed body).toList = "TMv1\n".toList ++
      (a.workerId.toList ++ '\n' :: (a.commandId.toList ++ '\n' :: ((toString a.issuedAt).toList ++
        '\n' :: ((toString a.expiresAt).toList ++ '\n' :: (a.nonce.toList ++ '\n' ::
          body.toList))))) := by
    intro a body
    have hcat : a.signed body = "TMv1\n" ++ a.workerId ++ "\n" ++ a.commandId ++ "\n" ++
        toString a.issuedAt ++ "\n" ++ toString a.expiresAt ++ "\n" ++ a.nonce ++ "\n" ++
        body := rfl
    have hline : "\n".toList = ['\n'] := rfl
    rw [hcat]
    simp only [String.toList_append, hline, List.append_assoc, List.cons_append, List.nil_append]
  have hlist := congrArg String.toList h
  rw [htext, htext, List.append_cancel_left_eq] at hlist
  obtain ⟨hworker, hlist⟩ := field_inj (newline_notMem_of_isSafeIdentifier ha.workerId)
    (newline_notMem_of_isSafeIdentifier hb.workerId) hlist
  obtain ⟨hcommand, hlist⟩ := field_inj (newline_notMem_of_isSafeIdentifier ha.commandId)
    (newline_notMem_of_isSafeIdentifier hb.commandId) hlist
  obtain ⟨hissued, hlist⟩ := field_inj (newline_notMem_int _) (newline_notMem_int _) hlist
  obtain ⟨hexpires, hlist⟩ := field_inj (newline_notMem_int _) (newline_notMem_int _) hlist
  obtain ⟨hnonce, hbody⟩ := field_inj (newline_notMem_of_isHexString ha.nonce)
    (newline_notMem_of_isHexString hb.nonce) hlist
  have hint : ∀ {m n : Int}, (toString m).toList = (toString n).toList → m = n := by
    intro m n h
    rw [← intOfDigits_toString m, h, intOfDigits_toString]
  exact ⟨String.toList_inj.1 hworker, String.toList_inj.1 hcommand, hint hissued, hint hexpires,
    String.toList_inj.1 hnonce, String.toList_inj.1 hbody⟩

/-! ## Acceptance -/

section

variable {hmacSha256 : String → String → Vector UInt8 32} {render : Value → String}

/-- The stages before the cache, as one condition on the envelope. -/
theorem checkEnvelope_ok_iff {msg : Value} {secret expected nonce : String} {now expiry : Int} :
    checkEnvelope hmacSha256 render msg secret expected now = .ok (nonce, expiry) ↔
      ∃ a : Auth, a.Carried msg ∧ a.WellFormed ∧ a.workerId = expected ∧
        (a.issuedAt ≤ satAdd now CLOCK_SKEW_SEC ∧
          (a.issuedAt < a.expiresAt ∧ satSub a.expiresAt a.issuedAt ≤ MAX_LIFETIME_SEC) ∧
          now ≤ a.expiresAt) ∧
        constantTimeHexEquals a.sig (hmacSha256Hex hmacSha256 secret
          (a.signed (canonicalBody render msg))) = true ∧
        a.nonce = nonce ∧ a.expiresAt = expiry := by
  constructor
  · intro h
    unfold checkEnvelope at h
    split at h
    · cases h
    rename_i hobj
    rw [Bool.not_eq_true', Bool.not_eq_false] at hobj
    cases hauth : msg.get "auth" with
    | none => simp [hauth] at h
    | some auth =>
      simp only [hauth] at h
      split at h
      · cases h
      rename_i hauthobj
      rw [Bool.not_eq_true', Bool.not_eq_false] at hauthobj
      split at h
      · rename_i w cid n s i x hw hc hn hs hi hx
        split_ifs at h with hids hworker hfuture hlife hexpired hmac
        simp only [Bool.or_eq_true, Bool.not_eq_true', not_or, Bool.not_eq_false] at hids
        simp only [Except.ok.injEq, Prod.mk.injEq] at h
        rw [Bool.not_eq_true', Bool.not_eq_false] at hmac
        obtain ⟨⟨⟨hwok, hcok⟩, hnok⟩, hsok⟩ := hids
        have htime : i ≤ satAdd now CLOCK_SKEW_SEC ∧
            (i < x ∧ satSub x i ≤ MAX_LIFETIME_SEC) ∧ now ≤ x := by omega
        exact ⟨⟨w, cid, i, x, n, s⟩, ⟨hobj, auth, hauth, hauthobj, hw, hc, hn, hs, hi, hx⟩,
          ⟨hwok, hcok, hnok, hsok⟩, not_not.1 hworker, htime, hmac, h.1, h.2⟩
      · cases h
  · rintro ⟨a, ⟨hobj, auth, hauth, hauthobj, hw, hc, hn, hs, hi, hx⟩, ⟨hwok, hcok, hnok, hsok⟩, rfl,
      ⟨hfuture, ⟨horder, hlife⟩, hlive⟩, hmac, rfl, rfl⟩
    unfold checkEnvelope
    unfold Auth.signed at hmac
    simp only [hobj, hauth, hauthobj, hw, hc, hn, hs, hi, hx, hwok, hcok, hnok, hsok, hmac,
      Bool.not_true, Bool.or_false, Bool.false_eq_true, if_false, ne_eq, not_true_eq_false]
    rw [if_neg (by omega), if_neg (by omega), if_neg (by omega)]

theorem checkAndInsert_fst {c : NonceCache} {nonce : String} {expiry now : Int} :
    (c.checkAndInsert nonce expiry now).1 = true ↔
      (c.purgeExpired now).containsKey nonce = false := by
  cases hseen : (c.purgeExpired now).containsKey nonce with
  | true => simp [NonceCache.checkAndInsert_seen hseen]
  | false => simp [NonceCache.checkAndInsert_fresh hseen]

/-- An envelope is accepted exactly if it passes every stage and its nonce is fresh. -/
theorem verifyEnvelope_fst {msg : Value} {secret expected : String} {now : Int} {c : NonceCache} :
    (verifyEnvelope hmacSha256 render msg secret expected now c).1 = .ok ↔
      ∃ nonce expiry,
        checkEnvelope hmacSha256 render msg secret expected now = .ok (nonce, expiry) ∧
        (c.purgeExpired now).containsKey nonce = false := by
  constructor
  · intro h
    obtain ⟨nonce, expiry, hck, hfresh, -⟩ := verifyEnvelope_ok h
    exact ⟨nonce, expiry, hck, checkAndInsert_fst.1 hfresh⟩
  · rintro ⟨nonce, expiry, hck, hfresh⟩
    unfold verifyEnvelope
    rw [hck]
    rcases hi : c.checkAndInsert nonce expiry now with ⟨b, c'⟩
    have hb := @checkAndInsert_fst c nonce expiry now
    rw [hi] at hb
    obtain rfl : b = true := hb.2 hfresh
    simp [hi]

end

/-- `verify_envelope` accepts exactly the messages whose `auth` fields are present,
well formed, addressed to the rig, inside the window over the unbounded integers and signed
over the body, with a nonce the purged cache does not hold; and the text under the MAC
determines every field of it. -/
theorem verifyEnvelope_exact (hmacSha256 : String → String → Vector UInt8 32)
    (render : Value → String) (msg : Value) (secret expected : String) (now : Int)
    (nonces : NonceCache) (hnow : i64Min ≤ now ∧ now ≤ i64Max) :
    ((verifyEnvelope hmacSha256 render msg secret expected now nonces).1 = .ok ↔
      ∃ a : Auth, a.Carried msg ∧ a.WellFormed ∧ a.workerId = expected ∧ a.InWindow now ∧
        a.sig.toList.map toAsciiLowercase = (hmacSha256Hex hmacSha256 secret
          (a.signed (canonicalBody render msg))).toList ∧
        (nonces.purgeExpired now).containsKey a.nonce = false) ∧
    ∀ (a b : Auth) (body body' : String), a.WellFormed → b.WellFormed →
      a.signed body = b.signed body' →
      a.workerId = b.workerId ∧ a.commandId = b.commandId ∧ a.issuedAt = b.issuedAt ∧
        a.expiresAt = b.expiresAt ∧ a.nonce = b.nonce ∧ body = body' := by
  refine ⟨?_, fun a b body body' ha hb h => Auth.signed_inj ha hb h⟩
  rw [verifyEnvelope_fst]
  constructor
  · rintro ⟨nonce, expiry, hck, hfresh⟩
    obtain ⟨a, hcarried, hwf, hworker, htime, hmac, rfl, rfl⟩ := checkEnvelope_ok_iff.1 hck
    exact ⟨a, hcarried, hwf, hworker, (inWindow_iff hnow hcarried.issuedAt_range).2 htime,
      (constantTimeHexEquals_hmac hwf.sig).1 hmac, hfresh⟩
  · rintro ⟨a, hcarried, hwf, hworker, htime, hmac, hfresh⟩
    exact ⟨a.nonce, a.expiresAt, checkEnvelope_ok_iff.2 ⟨a, hcarried, hwf, hworker,
      (inWindow_iff hnow hcarried.issuedAt_range).1 htime,
      (constantTimeHexEquals_hmac hwf.sig).2 hmac, rfl, rfl⟩, hfresh⟩

def releaseAuth (commandId : String) : Auth where
  workerId := "rig-1"
  commandId := commandId
  issuedAt := 9223372036854775707
  expiresAt := 9223372036854775807
  nonce := "00112233445566aa"
  sig := hmacSha256Hex flatMac "" ""

/-- At the last second an `i64` can name, where the skew saturates, and over the texts of
two commands that differ in their identifier. -/
theorem verifyEnvelope_exact_release :
    (∃ a : Auth,
      a.Carried (releaseEnvelope "00112233445566aa" 9223372036854775707 9223372036854775807) ∧
        a.WellFormed ∧ a.workerId = "rig-1" ∧ a.InWindow 9223372036854775807 ∧
        a.sig.toList.map toAsciiLowercase = (hmacSha256Hex flatMac "secret" (a.signed
          (canonicalBody flatRender (releaseEnvelope "00112233445566aa" 9223372036854775707
            9223372036854775807)))).toList ∧
        ((NonceCache.new 4096).purgeExpired 9223372036854775807).containsKey a.nonce = false) ∧
    (releaseAuth "cmd-1").signed "{}" ≠ (releaseAuth "cmd-2").signed "{}" := by
  have h := verifyEnvelope_exact flatMac flatRender
    (releaseEnvelope "00112233445566aa" 9223372036854775707 9223372036854775807) "secret" "rig-1"
    9223372036854775807 (NonceCache.new 4096) (by decide)
  refine ⟨h.1.1 (by decide), fun heq => ?_⟩
  have hwf : ∀ id, isSafeIdentifier id 1 MAX_ID_LEN = true → (releaseAuth id).WellFormed :=
    fun id hid => ⟨show isSafeIdentifier "rig-1" 1 MAX_ID_LEN = true by decide, hid,
      show isHexString "00112233445566aa" 16 128 = true by decide, isHexString_hmac "" ""⟩
  have := (h.2 _ _ _ _ (hwf "cmd-1" (by decide)) (hwf "cmd-2" (by decide)) heq).2.1
  exact absurd this (by decide)

end TreeMiner
