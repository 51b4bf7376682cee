import TreeMiner.Platform.Acceptance
import TreeMiner.Server.Signer

/-! What the platform signs and the rig accepts: the signed message travels as text, is
read again and checked against the text the rig writes for it. -/

namespace TreeMiner

open Lib Lib.Json

/-! ## The rig's secret -/

inductive CredentialError
  | missing (var : String)
  | empty (var : String)
deriving DecidableEq, Repr

def ENV_COMMAND_SECRET : String := "TREEMINER_PLATFORM_COMMAND_SECRET"

/-- `required_env`; the value of the variable, `none` where it is not set. -/
def requiredEnv (var : String) (value : Option String) : Except CredentialError String :=
  match value with
  | some v => if v.isEmpty then .error (.empty var) else .ok v
  | none => .error (.missing var)

/-! ## The envelope, stage by stage -/

/-- A message whose envelope is well formed and addressed to the rig is accepted if its
timestamps are `i64`s in the window and the MAC is the one the rig computes. -/
theorem verifyEnvelope_ok_iff {hmacSha256 : String → String → Vector UInt8 32}
    {render : Value → String} {msg auth : Value} {key workerId commandId nonce sig : String}
    {now : Int} {capacity : Nat} (hobj : msg.isObject = true)
    (hauth : msg.get "auth" = some auth) (hauthobj : auth.isObject = true)
    (hworker : stringField auth "worker_id" = some workerId)
    (hcommand : stringField auth "command_id" = some commandId)
    (hnonce : stringField auth "nonce" = some nonce) (hsig : stringField auth "sig" = some sig)
    (hworkerok : isSafeIdentifier workerId 1 MAX_ID_LEN = true)
    (hcommandok : isSafeIdentifier commandId 1 MAX_ID_LEN = true)
    (hnonceok : isHexString nonce MIN_NONCE_HEX_LEN MAX_NONCE_HEX_LEN = true)
    (hsigok : isHexString sig 64 64 = true) :
    (verifyEnvelope hmacSha256 render msg key workerId now (NonceCache.new capacity)).1 = .ok ↔
      ∃ issuedAt expiresAt, int64Field auth "issued_at" = some issuedAt ∧
        int64Field auth "expires_at" = some expiresAt ∧ issuedAt ≤ satAdd now CLOCK_SKEW_SEC ∧
        (issuedAt < expiresAt ∧ satSub expiresAt issuedAt ≤ MAX_LIFETIME_SEC) ∧
        now ≤ expiresAt ∧
        constantTimeHexEquals sig (hmacSha256Hex hmacSha256 key (signingString workerId commandId
          issuedAt expiresAt nonce (canonicalBody render msg))) = true := by
  rw [verifyEnvelope_fst]
  constructor
  · rintro ⟨nonce', expiry, hck, -⟩
    obtain ⟨a, ⟨-, auth', hauth', -, hw, hc, hn, hs, hi, hx⟩, -, -, htime, hmac, -, -⟩ :=
      checkEnvelope_ok_iff.1 hck
    obtain rfl := Option.some.inj (hauth.symm.trans hauth')
    obtain rfl := Option.some.inj (hworker.symm.trans hw)
    obtain rfl := Option.some.inj (hcommand.symm.trans hc)
    obtain rfl := Option.some.inj (hnonce.symm.trans hn)
    obtain rfl := Option.some.inj (hsig.symm.trans hs)
    exact ⟨a.issuedAt, a.expiresAt, hi, hx, htime.1, htime.2.1, htime.2.2, hmac⟩
  · rintro ⟨issuedAt, expiresAt, hi, hx, hskew, hlife, hlive, hmac⟩
    exact ⟨nonce, expiresAt, checkEnvelope_ok_iff.2
      ⟨⟨workerId, commandId, issuedAt, expiresAt, nonce, sig⟩,
        ⟨hobj, auth, hauth, hauthobj, hworker, hcommand, hnonce, hsig, hi, hx⟩,
        ⟨hworkerok, hcommandok, hnonceok, hsigok⟩, rfl, ⟨hskew, hlife, hlive⟩, hmac, rfl, rfl⟩, rfl⟩

namespace Server

/-! ## What `sign` lets through -/

def Integral (d : PyValue) : Prop := ∀ n ∈ d.numbers, ∃ i, n = .int i

theorem integral_array {ds : List PyValue} (h : ∀ d ∈ ds, Integral d) : Integral (.array ds) := by
  intro n hn
  rw [JsonTree.numbers, List.mem_flatMap] at hn
  obtain ⟨d, hd, hn⟩ := hn
  exact h d hd n hn

theorem integral_object {ms : List (String × PyValue)} (h : ∀ m ∈ ms, Integral m.2) :
    Integral (.object ms) := by
  intro n hn
  rw [JsonTree.numbers, List.mem_flatMap] at hn
  obtain ⟨m, hm, hn⟩ := hn
  exact h m hm n hn

theorem rejectItems_ok {path : String} {ds : List PyValue} {index : Nat}
    (h : rejectItems path index ds = .ok ()) :
    ∀ d ∈ ds, ∃ path', rejectUncanonicalisable path' d = .ok () := by
  induction ds generalizing index with
  | nil => simp
  | cons d ds ih =>
    rw [rejectItems] at h
    cases hd : rejectUncanonicalisable s!"{path}[{index}]" d with
    | error e =>
      rw [hd] at h
      cases h
    | ok _ =>
      rw [hd] at h
      exact List.forall_mem_cons.2 ⟨⟨_, hd⟩, ih h⟩

theorem rejectMembers_ok {path : String} {ms : List (String × PyValue)}
    (h : rejectMembers path ms = .ok ()) :
    ∀ m ∈ ms, ∃ path', rejectUncanonicalisable path' m.2 = .ok () := by
  induction ms with
  | nil => simp
  | cons m ms ih =>
    rw [rejectMembers] at h
    cases hm : rejectUncanonicalisable s!"{path}.{m.1}" m.2 with
    | error e =>
      rw [hm] at h
      cases h
    | ok _ =>
      rw [hm] at h
      exact List.forall_mem_cons.2 ⟨⟨_, hm⟩, ih h⟩

/-- No float is left in a message that is not refused. -/
theorem integral_of_ok {path : String} {d : PyValue}
    (h : rejectUncanonicalisable path d = .ok ()) : Integral d := by
  induction d using JsonTree.ind generalizing path with
  | null => simp [Integral, JsonTree.numbers]
  | bool b => simp [Integral, JsonTree.numbers]
  | number n =>
    cases n with
    | int i => simp [Integral, JsonTree.numbers]
    | float x =>
      rw [rejectUncanonicalisable] at h
      cases h
  | string s => simp [Integral, JsonTree.numbers]
  | array ds ih =>
    rw [rejectUncanonicalisable] at h
    refine integral_array fun d hd => ?_
    obtain ⟨path', hok⟩ := rejectItems_ok h d hd
    exact ih d hd hok
  | object ms ih =>
    rw [rejectUncanonicalisable] at h
    refine integral_object fun m hm => ?_
    obtain ⟨path', hok⟩ := rejectMembers_ok h m hm
    exact ih m hm hok

theorem number_toString (n : Int) : Json.Number (toString n).toList := by
  cases n with
  | ofNat n => exact number_repr n
  | negSucc n =>
    have htext : (toString (Int.negSucc n)).toList = ['-'] ++ Nat.toDigits 10 (n + 1) := by
      rw [show toString (Int.negSucc n) = "-" ++ Nat.repr (n + 1) from rfl, String.toList_append,
        Nat.toList_repr]
      rfl
    refine ⟨['-'], Nat.toDigits 10 (n + 1), [], [], ?_, Or.inr rfl,
      Or.inr ⟨digits_toDigits _, head_toDigits (by omega)⟩, Or.inl rfl, Or.inl rfl⟩
    rw [htext, List.append_nil, List.append_nil]

theorem numeric_of_integral {floatRepr : F64 → List Char} {d : PyValue} (h : Integral d) :
    (d.map (numberText floatRepr)).Numeric := by
  intro t ht
  rw [JsonTree.numbers_map, List.mem_map] at ht
  obtain ⟨n, hn, rfl⟩ := ht
  obtain ⟨i, rfl⟩ := h n hn
  exact number_toString i

section

variable {floatRepr : F64 → List Char} {hmacSha256 : String → String → Vector UInt8 32}
  {signer : CommandSigner} {env : Option String} {src : Sources} {message : Message}
  {workerId : String} {commandId : Option String} {lifetimeSec : Option Int}

theorem canonicalBody_ok {body : String} (h : canonicalBody floatRepr message = .ok body) :
    Integral (.object message.body) ∧ body = String.ofList
      (compactStyle.write ((JsonTree.object message.body).map (numberText floatRepr)).norm) := by
  unfold canonicalBody at h
  cases hok : rejectUncanonicalisable "$" (.object message.body) with
  | error e =>
    rw [hok] at h
    cases h
  | ok _ =>
    rw [hok] at h
    cases h
    exact ⟨integral_of_ok hok, rfl⟩

theorem freshNonce_ok {recent : List String} {draw : Nat → String} {i tries : Nat}
    {x : String × List String} (h : freshNonce recent draw i tries = .ok x) :
    isHexString x.1 MIN_NONCE_HEX_LEN MAX_NONCE_HEX_LEN = true ∧ x.1 ∉ recent := by
  induction tries generalizing i with
  | zero => cases h
  | succ tries ih =>
    rw [freshNonce] at h
    split_ifs at h with hhex hseen
    · exact ih h
    · cases h
      rw [Bool.not_eq_true', Bool.not_eq_false] at hhex
      exact ⟨hhex, hseen⟩

/-- What `sign` has settled when it signs, and that the MAC decides nothing before. -/
theorem sign_ok {x : PyValue × List String}
    (h : sign floatRepr hmacSha256 signer env src message workerId commandId lifetimeSec = .ok x) :
    ∃ secret body nonce, loadCommandSecret env = .ok secret ∧
      canonicalBody floatRepr message = .ok body ∧
      isSafeIdentifier workerId 1 MAX_ID_LEN = true ∧
      isSafeIdentifier (commandId.getD (src.commandId message)) 1 MAX_ID_LEN = true ∧
      (1 ≤ lifetimeSec.getD signer.lifetimeSec ∧
        lifetimeSec.getD signer.lifetimeSec ≤ MAX_LIFETIME_SEC) ∧
      isHexString nonce MIN_NONCE_HEX_LEN MAX_NONCE_HEX_LEN = true ∧
      ∀ hmac, sign floatRepr hmac signer env src message workerId commandId lifetimeSec =
        .ok (.object (message.body ++
          [("auth", authMember workerId (commandId.getD (src.commandId message)) src.clock
            (src.clock + lifetimeSec.getD signer.lifetimeSec) nonce
            (hmacSha256Hex hmac secret (signingString workerId
              (commandId.getD (src.commandId message)) src.clock
              (src.clock + lifetimeSec.getD signer.lifetimeSec) nonce body)))]), x.2) := by
  unfold sign at h
  simp only [bind, Except.bind, pure, Except.pure, throw, throwThe, MonadExceptOf.throw] at h
  cases hsecret : loadCommandSecret env with
  | error e => simp [hsecret] at h
  | ok secret =>
    simp only [hsecret] at h
    split_ifs at h with hworker hcommand hwindow
    cases hbody : canonicalBody floatRepr message with
    | error e => simp [hbody] at h
    | ok body =>
      cases hnonce : freshNonce signer.recentNonces src.nonce 0 8 with
      | error e => simp [hbody, hnonce] at h
      | ok nonce =>
        simp only [hbody, hnonce, Except.ok.injEq] at h
        subst h
        rw [Bool.not_eq_true', Bool.not_eq_false] at hworker hcommand
        refine ⟨secret, body, nonce.1, rfl, rfl, hworker, hcommand, hwindow,
          (freshNonce_ok hnonce).1, fun hmac => ?_⟩
        unfold sign
        simp [bind, Except.bind, pure, Except.pure, hsecret, hbody, hnonce, hworker, hcommand,
          hwindow]

/-! ## The signed message on the rig -/

theorem size_of_allowed {value : String} (h : value.toList.all isIdAllowed = true) :
    value.utf8ByteSize = value.length := by
  have hascii : ∀ c ∈ value.toList, c.toNat < 128 := by
    intro c hc
    have hallowed := List.all_eq_true.1 h c hc
    unfold isIdAllowed at hallowed
    simp only [Bool.or_eq_true, decide_eq_true_eq] at hallowed
    rcases hallowed with ((h | rfl) | rfl) | rfl
    · exact toNat_of_isAsciiAlphanumeric h
    all_goals decide
  rw [utf8ByteSize_of_ascii hascii, String.length_toList]

theorem isSafeIdentifier_rig_iff {value : String} {minLen maxLen : Nat} :
    TreeMiner.isSafeIdentifier value minLen maxLen = true ↔
      isSafeIdentifier value minLen maxLen = true := by
  have hsame : (fun c => isAsciiAlphanumeric c || decide (c = '.') || decide (c = '_') ||
      decide (c = '-')) = isIdAllowed := rfl
  unfold TreeMiner.isSafeIdentifier isSafeIdentifier
  rw [hsame]
  constructor
  · intro h
    rwa [size_of_allowed (Bool.and_eq_true _ _ ▸ h).2] at h
  · intro h
    rwa [size_of_allowed (Bool.and_eq_true _ _ ▸ h).2]

theorem isHexString_rig {value : String} {minLen maxLen : Nat}
    (h : isHexString value minLen maxLen = true) :
    TreeMiner.isHexString value minLen maxLen = true := by
  unfold isHexString at h
  simp only [Bool.and_eq_true, decide_eq_true_eq, List.all_eq_true] at h
  obtain ⟨⟨hmin, hmax⟩, hall⟩ := h
  have hsize := utf8ByteSize_of_hexdigits hall
  rw [String.length_toList] at hsize
  unfold TreeMiner.isHexString
  simp only [Bool.and_eq_true, decide_eq_true_eq, List.all_eq_true, hsize]
  exact ⟨⟨hmin, hmax⟩, hall⟩

variable {C : Codec}

/-- The members of a message with the texts of their numbers. -/
def texts (floatRepr : F64 → List Char) (ms : List (String × PyValue)) :
    List (String × JsonTree (List Char)) :=
  ms.map fun m => (m.1, m.2.map (numberText floatRepr))

theorem body_keys (message : Message) (d : JsonTree (List Char)) :
    ((texts floatRepr message.body ++ [("auth", d)]).map Prod.fst).Nodup := by
  have hdistinct := message.distinct
  rw [JsonTree.Distinct] at hdistinct
  have hkeys : (texts floatRepr message.body).map Prod.fst = message.body.map Prod.fst := by
    unfold texts
    rw [List.map_map]
    rfl
  rw [List.map_append, hkeys, List.nodup_append]
  refine ⟨hdistinct.1.sublist (List.Sublist.map _ List.filter_sublist), by simp, ?_⟩
  rintro k hk k' hk' rfl
  rw [List.map_singleton, List.mem_singleton] at hk'
  obtain ⟨m, hm, rfl⟩ := List.mem_map.1 hk
  unfold Message.body at hm
  exact absurd hk' (of_decide_eq_true (List.mem_filter.1 hm).2)

theorem asI64_number (hC : C.Reader) {n : Int} {x : Number}
    (h : C.number (toString n).toList = some x) :
    x.asI64 = if i64Min ≤ n ∧ n ≤ i64Max then some n else none := by
  by_cases hrange : i64Min ≤ n ∧ n ≤ u64Max
  · rw [hC.number_int n hrange.1 hrange.2] at h
    cases h
    rfl
  · have hout : ¬ (i64Min ≤ n ∧ n ≤ i64Max) := by
      unfold i64Max
      unfold u64Max at hrange
      omega
    rw [if_neg hout]
    rcases hC.number_big n hrange with hnone | ⟨y, hy, -⟩
    · rw [hnone] at h
      cases h
    · rw [hy] at h
      cases h
      rfl

/-- The members of `auth` with the texts of their numbers. -/
def authTexts (workerId cid : String) (issuedAt expiresAt : Int) (nonce sig : String) :
    List (String × JsonTree (List Char)) :=
  [("worker_id", .string workerId), ("command_id", .string cid),
    ("issued_at", .number (toString issuedAt).toList),
    ("expires_at", .number (toString expiresAt).toList), ("nonce", .string nonce),
    ("sig", .string sig)]

theorem authTexts_keys (workerId cid : String) (issuedAt expiresAt : Int) (nonce sig : String) :
    ((authTexts workerId cid issuedAt expiresAt nonce sig).map Prod.fst).Nodup := by
  unfold authTexts
  simp only [List.map_cons, List.map_nil]
  decide

/-- The signed message, as the broker's text has it. -/
theorem signed_map (message : Message) (workerId cid : String) (issuedAt expiresAt : Int)
    (nonce sig : String) :
    (JsonTree.object (message.body ++
      [("auth", authMember workerId cid issuedAt expiresAt nonce sig)])).map
        (numberText floatRepr) =
      .object (texts floatRepr message.body ++
        [("auth", .object (authTexts workerId cid issuedAt expiresAt nonce sig))]) := by
  unfold texts authMember authTexts
  simp [JsonTree.map, numberText]

/-- What the rig finds in a signed message it has read. -/
theorem read_signed (hC : C.Reader) {cid nonce sig : String} {issuedAt expiresAt : Int}
    {left : Nat} {msg : Value} (h : Value.ofTree C.number
      ((JsonTree.object (message.body ++
        [("auth", authMember workerId cid issuedAt expiresAt nonce sig)])).map
          (numberText floatRepr)) left = some msg) :
    msg.isObject = true ∧ Value.ofTree C.number (.object (texts floatRepr message.body)) left =
        some (msg.remove "auth") ∧
      ∃ auth, msg.get "auth" = some auth ∧ auth.isObject = true ∧
        stringField auth "worker_id" = some workerId ∧
        stringField auth "command_id" = some cid ∧ stringField auth "nonce" = some nonce ∧
        stringField auth "sig" = some sig ∧
        int64Field auth "issued_at" =
          (if i64Min ≤ issuedAt ∧ issuedAt ≤ i64Max then some issuedAt else none) ∧
        int64Field auth "expires_at" =
          (if i64Min ≤ expiresAt ∧ expiresAt ≤ i64Max then some expiresAt else none) := by
  rw [signed_map] at h
  obtain ⟨auth, hauth, hget, hbody⟩ := Codec.ofTree_append h (body_keys message _)
  refine ⟨Codec.isObject_ofTree h (body_keys message _), hbody, auth, hget,
    Codec.isObject_ofTree hauth (authTexts_keys ..), ?_⟩
  have hstring : ∀ k s,
      (k, JsonTree.string s) ∈ authTexts workerId cid issuedAt expiresAt nonce sig →
      stringField auth k = some s := by
    intro k s hm
    obtain ⟨x, hx, hk⟩ := Codec.get_ofTree hauth (authTexts_keys ..) hm
    rw [Value.ofTree] at hx
    cases hx
    unfold stringField
    rw [hk]
  have hint : ∀ k n, (k, JsonTree.number (toString n).toList) ∈
      authTexts workerId cid issuedAt expiresAt nonce sig →
      int64Field auth k = if i64Min ≤ n ∧ n ≤ i64Max then some n else none := by
    intro k n hm
    obtain ⟨x, hx, hk⟩ := Codec.get_ofTree hauth (authTexts_keys ..) hm
    rw [Value.ofTree, Option.map_eq_some_iff] at hx
    obtain ⟨y, hy, rfl⟩ := hx
    unfold int64Field
    rw [hk]
    exact asI64_number hC hy
  unfold authTexts at hstring hint
  exact ⟨hstring _ _ (by simp), hstring _ _ (by simp), hstring _ _ (by simp),
    hstring _ _ (by simp), hint _ _ (by simp), hint _ _ (by simp)⟩

/-! ## One text on both sides -/

theorem compactStyle_eq : compactStyle = serdeStyle := by
  unfold compactStyle serdeStyle pythonStyle
  congr 1

theorem fromStr_wire (hC : C.Reader) {signed : PyValue} (h : Integral signed) :
    C.fromStr (wire floatRepr signed) =
      Value.ofTree C.number (signed.map (numberText floatRepr)) RECURSION_LIMIT := by
  obtain ⟨j, hj, htext⟩ := defaultStyle.text_read (@numeric_of_integral floatRepr _ h)
  rw [← String.toList_ofList (l := defaultStyle.write _)] at htext
  unfold wire
  rw [hC.reads htext, hj, Option.bind_some]

/-- A number the rig has read is written as a number, and as the same one in range. -/
theorem retext_toString (hC : C.Reader) {n : Int} {x : Number}
    (h : C.number (toString n).toList = some x) :
    Json.Number (C.retext (toString n).toList) ∧
      (C.retext (toString n).toList = (toString n).toList ↔ i64Min ≤ n ∧ n ≤ u64Max) := by
  unfold Codec.retext
  by_cases hrange : i64Min ≤ n ∧ n ≤ u64Max
  · rw [hC.number_int n hrange.1 hrange.2]
    exact ⟨number_toString n, iff_of_true rfl hrange⟩
  · rcases hC.number_big n hrange with hnone | ⟨y, hy, hnumber, hne⟩
    · rw [hnone] at h
      cases h
    · rw [hy]
      refine ⟨hnumber, iff_of_false (fun heq => hne n ?_) hrange⟩
      exact String.toList_inj.1 heq

/-- The rig writes the body as the platform did if every integer is one to it. -/
theorem render_body_iff (hC : C.Reader) {body : PyValue} (hint : Integral body)
    (hdistinct : body.Distinct) {w : Value}
    (h : Value.ofTree C.number (body.map (numberText floatRepr)) RECURSION_LIMIT = some w) :
    C.render w = String.ofList (compactStyle.write (body.map (numberText floatRepr)).norm) ↔
      ∀ n, .int n ∈ body.numbers → i64Min ≤ n ∧ n ≤ u64Max := by
  have htree := Codec.tree_ofTree h ((JsonTree.distinct_map _ _).2 hdistinct)
  have hread := ((Codec.ofTree_isSome_iff (by decide)).1 ⟨w, h⟩).2
  have hnumbers : ∀ t ∈ (body.map (numberText floatRepr)).numbers, ∃ n,
      .int n ∈ body.numbers ∧ t = (toString n).toList ∧ ∃ x, C.number t = some x := by
    intro t ht
    have hx := hread t ht
    rw [JsonTree.numbers_map, List.mem_map] at ht
    obtain ⟨m, hm, rfl⟩ := ht
    obtain ⟨n, rfl⟩ := hint m hm
    exact ⟨n, hm, rfl, hx⟩
  have hmem : ∀ n, .int n ∈ body.numbers →
      (toString n).toList ∈ (body.map (numberText floatRepr)).numbers := by
    intro n hn
    rw [JsonTree.numbers_map]
    exact List.mem_map.2 ⟨_, hn, rfl⟩
  unfold Codec.render
  rw [htree, compactStyle_eq, JsonTree.norm_map]
  constructor
  · intro heq n hn
    have hleft : ((body.map (numberText floatRepr)).norm.map C.retext).Numeric := by
      intro t ht
      rw [JsonTree.numbers_map, List.mem_map] at ht
      obtain ⟨u, hu, rfl⟩ := ht
      obtain ⟨i, -, rfl, x, hx⟩ := hnumbers u (JsonTree.mem_numbers_norm.1 hu)
      exact (retext_toString hC hx).1
    have hright : (body.map (numberText floatRepr)).norm.Numeric := fun t ht =>
      numeric_of_integral hint t (JsonTree.mem_numbers_norm.1 ht)
    have hfixed := JsonTree.map_eq_self.1
      (Style.write_injective hleft hright (String.ofList_inj.1 heq))
    obtain ⟨x, hx⟩ := hread _ (hmem n hn)
    exact (retext_toString hC hx).2.1 (hfixed _ (JsonTree.mem_numbers_norm.2 (hmem n hn)))
  · intro hrange
    have hfixed : ∀ t ∈ (body.map (numberText floatRepr)).norm.numbers, C.retext t = t := by
      intro t ht
      obtain ⟨n, hn, rfl, x, hx⟩ := hnumbers t (JsonTree.mem_numbers_norm.1 ht)
      exact (retext_toString hC hx).2.2 (hrange n hn)
    rw [JsonTree.map_eq_self.2 hfixed]

theorem signingString_inj {workerId cid : String} {issuedAt expiresAt : Int} {nonce a b : String} :
    signingString workerId cid issuedAt expiresAt nonce a =
      TreeMiner.signingString workerId cid issuedAt expiresAt nonce b ↔ a = b := by
  constructor
  · intro h
    unfold signingString TreeMiner.signingString at h
    simp only [String.append_right_inj] at h
    exact h
  · rintro rfl
    rfl

/-! ## Acceptance -/

/-- The rig, with the variable's value in its own environment, accepts the text the broker
publishes. -/
def Accepted (C : Codec) (floatRepr : F64 → List Char)
    (hmacSha256 : String → String → Vector UInt8 32) (value workerId : String) (now : Int)
    (capacity : Nat) (signed : PyValue) : Prop :=
  ∃ key msg, requiredEnv ENV_COMMAND_SECRET (some value) = .ok key ∧
    C.fromStr (wire floatRepr signed) = some msg ∧
    (verifyEnvelope hmacSha256 C.render msg key workerId now (NonceCache.new capacity)).1 = .ok

/-- The secret has no blank around it, the rig reads the body as the platform wrote it, and
the timestamps are `i64`s. -/
structure Agrees (value : String) (message : Message) (issuedAt expiresAt : Int) : Prop where
  secret : strip value = value
  depth : (JsonTree.object message.body).depth < RECURSION_LIMIT
  ints : ∀ n, .int n ∈ (JsonTree.object message.body).numbers → i64Min ≤ n ∧ n ≤ u64Max
  issued : i64Min ≤ issuedAt
  expires : expiresAt ≤ i64Max

theorem body_distinct (message : Message) : (JsonTree.object message.body).Distinct := by
  have h := message.distinct
  rw [JsonTree.Distinct] at h ⊢
  refine ⟨h.1.sublist (List.Sublist.map _ List.filter_sublist), fun m hm => h.2 m ?_⟩
  exact List.mem_of_mem_filter hm

theorem integral_signed {message : Message} (h : Integral (.object message.body))
    (workerId cid : String) (issuedAt expiresAt : Int) (nonce sig : String) :
    Integral (.object (message.body ++
      [("auth", authMember workerId cid issuedAt expiresAt nonce sig)])) := by
  intro n hn
  rw [JsonTree.numbers, List.flatMap_append, List.mem_append] at hn
  rcases hn with hn | hn
  · exact h n (by rwa [JsonTree.numbers])
  · unfold authMember at hn
    simp only [JsonTree.numbers, List.flatMap_cons, List.flatMap_nil, List.append_nil,
      List.nil_append, List.mem_append, List.mem_singleton] at hn
    rcases hn with rfl | rfl
    · exact ⟨_, rfl⟩
    · exact ⟨_, rfl⟩

/-- A signed message is read if its body is and its timestamps are. -/
theorem read_isSome (hC : C.Reader) {message : Message} (workerId cid nonce sig : String)
    {issuedAt expiresAt : Int} {w : Value} (hw : Value.ofTree C.number
      (.object (texts floatRepr message.body)) RECURSION_LIMIT = some w)
    (hissued : i64Min ≤ issuedAt ∧ issuedAt ≤ i64Max)
    (hexpires : i64Min ≤ expiresAt ∧ expiresAt ≤ i64Max) : ∃ msg, Value.ofTree C.number
      ((JsonTree.object (message.body ++
        [("auth", authMember workerId cid issuedAt expiresAt nonce sig)])).map
          (numberText floatRepr)) RECURSION_LIMIT = some msg := by
  have hint : ∀ n : Int, i64Min ≤ n ∧ n ≤ i64Max → ∃ x, C.number (toString n).toList = some x := by
    intro n hn
    refine ⟨_, hC.number_int n hn.1 (le_trans hn.2 ?_)⟩
    decide
  obtain ⟨hdepth, hnum⟩ := (Codec.ofTree_isSome_iff (by decide)).1 ⟨w, hw⟩
  rw [signed_map, Codec.ofTree_isSome_iff (by decide), JsonTree.depth_object_lt]
  rw [JsonTree.depth_object_lt] at hdepth
  rw [JsonTree.numbers] at hnum
  refine ⟨⟨hdepth.1, fun m hm => ?_⟩, fun t ht => ?_⟩
  · rcases List.mem_append.1 hm with hm | hm
    · exact hdepth.2 m hm
    · rw [List.mem_singleton] at hm
      subst hm
      unfold authTexts
      simp [JsonTree.depth, RECURSION_LIMIT]
  · rw [JsonTree.numbers, List.flatMap_append, List.mem_append] at ht
    rcases ht with ht | ht
    · exact hnum t ht
    · unfold authTexts at ht
      simp only [JsonTree.numbers, List.flatMap_cons, List.flatMap_nil, List.append_nil,
        List.nil_append, List.mem_append, List.mem_singleton] at ht
      rcases ht with rfl | rfl
      · exact hint _ hissued
      · exact hint _ hexpires

/-- A signed message is accepted if the rig reads it, its timestamps are `i64`s and the MAC
over what the rig writes is the platform's. -/
theorem accepted_iff (hC : C.Reader) {message : Message} {value secret cid nonce body : String}
    {issuedAt expiresAt now : Int} {capacity : Nat} (hint : Integral (.object message.body))
    (hworker : isSafeIdentifier workerId 1 MAX_ID_LEN = true)
    (hcid : isSafeIdentifier cid 1 MAX_ID_LEN = true)
    (hnonce : isHexString nonce MIN_NONCE_HEX_LEN MAX_NONCE_HEX_LEN = true)
    (hlifetime : issuedAt < expiresAt ∧ expiresAt - issuedAt ≤ MAX_LIFETIME_SEC)
    (hstart : issuedAt - CLOCK_SKEW_SEC ≤ now) (hend : now ≤ expiresAt) :
    Accepted C floatRepr hmacSha256 value workerId now capacity (.object (message.body ++
      [("auth", authMember workerId cid issuedAt expiresAt nonce (hmacSha256Hex hmacSha256 secret
        (signingString workerId cid issuedAt expiresAt nonce body)))])) ↔
    ∃ key w, requiredEnv ENV_COMMAND_SECRET (some value) = .ok key ∧
      Value.ofTree C.number (.object (texts floatRepr message.body)) RECURSION_LIMIT = some w ∧
      i64Min ≤ issuedAt ∧ expiresAt ≤ i64Max ∧
      hmacSha256 secret (signingString workerId cid issuedAt expiresAt nonce body) =
        hmacSha256 key (TreeMiner.signingString workerId cid issuedAt expiresAt nonce
          (C.render w)) := by
  have hverify : ∀ {msg : Value} {key : String}, Value.ofTree C.number
      ((JsonTree.object (message.body ++ [("auth", authMember workerId cid issuedAt expiresAt nonce
        (hmacSha256Hex hmacSha256 secret
          (signingString workerId cid issuedAt expiresAt nonce body)))])).map
            (numberText floatRepr)) RECURSION_LIMIT = some msg →
      ((verifyEnvelope hmacSha256 C.render msg key workerId now (NonceCache.new capacity)).1 = .ok ↔
        i64Min ≤ issuedAt ∧ expiresAt ≤ i64Max ∧
        hmacSha256 secret (signingString workerId cid issuedAt expiresAt nonce body) =
          hmacSha256 key (TreeMiner.signingString workerId cid issuedAt expiresAt nonce
            (C.render (msg.remove "auth")))) := by
    intro msg key hmsg
    obtain ⟨hobj, -, auth, hget, hauthobj, hw, hc, hn, hs, hi, he⟩ := read_signed hC hmsg
    rw [verifyEnvelope_ok_iff hobj hget hauthobj hw hc hn hs (isSafeIdentifier_rig_iff.2 hworker)
      (isSafeIdentifier_rig_iff.2 hcid) (isHexString_rig hnonce) (isHexString_hmac _ _), hi, he]
    constructor
    · rintro ⟨i, e, hi', he', -, -, -, hmac⟩
      rw [Option.ite_none_right_eq_some] at hi' he'
      obtain ⟨⟨hmin, -⟩, ⟨⟩⟩ := hi'
      obtain ⟨⟨-, hmax⟩, ⟨⟩⟩ := he'
      exact ⟨hmin, hmax, hmac_equals_iff.1 hmac⟩
    · rintro ⟨hmin, hmax, hmac⟩
      have hskew : issuedAt ≤ satAdd now CLOCK_SKEW_SEC := by
        unfold satAdd clampI64
        omega
      have hlife : satSub expiresAt issuedAt ≤ MAX_LIFETIME_SEC := by
        unfold satSub clampI64 MAX_LIFETIME_SEC i64Min
        unfold MAX_LIFETIME_SEC at hlifetime
        omega
      exact ⟨issuedAt, expiresAt, if_pos ⟨hmin, by omega⟩, if_pos ⟨by omega, hmax⟩, hskew,
        ⟨hlifetime.1, hlife⟩, hend, hmac_equals_iff.2 hmac⟩
  constructor
  · rintro ⟨key, msg, hkey, hmsg, hok⟩
    rw [fromStr_wire hC (integral_signed hint _ _ _ _ _ _)] at hmsg
    obtain ⟨hissued, hexpires, hmac⟩ := (hverify hmsg).1 hok
    exact ⟨key, _, hkey, (read_signed hC hmsg).2.1, hissued, hexpires, hmac⟩
  · rintro ⟨key, w, hkey, hw, hissued, hexpires, hmac⟩
    obtain ⟨msg, hmsg⟩ := read_isSome hC workerId cid nonce _ hw ⟨hissued, by omega⟩
      ⟨by omega, hexpires⟩
    refine ⟨key, msg, hkey, ?_, (hverify hmsg).2 ⟨hissued, hexpires, ?_⟩⟩
    · rw [fromStr_wire hC (integral_signed hint _ _ _ _ _ _)]
      exact hmsg
    · have := (read_signed hC hmsg).2.1
      rw [hw] at this
      cases this
      exact hmac

theorem loadCommandSecret_ok {value secret : String}
    (h : loadCommandSecret (some value) = .ok secret) : secret = strip value ∧ secret ≠ "" := by
  unfold loadCommandSecret at h
  dsimp only [Option.getD_some] at h
  split_ifs at h with hempty
  cases h
  refine ⟨rfl, fun heq => hempty ?_⟩
  rw [heq]
  rfl

theorem requiredEnv_ok {var value key : String} (h : requiredEnv var (some value) = .ok key) :
    key = value := by
  unfold requiredEnv at h
  dsimp only at h
  split_ifs at h
  cases h
  rfl

/-- Whatever the MAC is, what `sign` returns for the rig is accepted in its window: exactly
when the secret is its own strip, the integers are `i64`s or `u64`s, the nesting stays within
the reader's limit and the timestamps are `i64`s. -/
theorem signed_accepted_iff (hC : C.Reader) {value : String} {x : PyValue × List String}
    (hsign : sign floatRepr hmacSha256 signer (some value) src message workerId commandId
      lifetimeSec = .ok x) {now : Int} {capacity : Nat}
    (hstart : src.clock - CLOCK_SKEW_SEC ≤ now)
    (hend : now ≤ src.clock + lifetimeSec.getD signer.lifetimeSec) :
    (∀ hmac y, sign floatRepr hmac signer (some value) src message workerId commandId
        lifetimeSec = .ok y → Accepted C floatRepr hmac value workerId now capacity y.1) ↔
      Agrees value message src.clock (src.clock + lifetimeSec.getD signer.lifetimeSec) := by
  obtain ⟨secret, body, nonce, hsecret, hbody, hworker, hcid, hwindow, hnonce, hall⟩ :=
    sign_ok hsign
  obtain ⟨hint, rfl⟩ := canonicalBody_ok hbody
  obtain ⟨rfl, hne⟩ := loadCommandSecret_ok hsecret
  have hlifetime : src.clock < src.clock + lifetimeSec.getD signer.lifetimeSec ∧
      src.clock + lifetimeSec.getD signer.lifetimeSec - src.clock ≤ MAX_LIFETIME_SEC := by omega
  have htexts : (JsonTree.object message.body).map (numberText floatRepr) =
      .object (texts floatRepr message.body) := by
    rw [JsonTree.map]
    rfl
  constructor
  · intro h
    -- a MAC that tells the platform's key and text from all others
    let hmac : String → String → Vector UInt8 32 := fun key data =>
      if key = strip value ∧ data = signingString workerId
          (commandId.getD (src.commandId message)) src.clock
          (src.clock + lifetimeSec.getD signer.lifetimeSec) nonce
          (String.ofList (compactStyle.write
            ((JsonTree.object message.body).map (numberText floatRepr)).norm))
      then Vector.replicate 32 0 else Vector.replicate 32 1
    obtain ⟨key, w, hkey, hw, hissued, hexpires, hmaceq⟩ :=
      (accepted_iff hC hint hworker hcid hnonce hlifetime hstart hend).1 (h hmac _ (hall hmac))
    obtain rfl := requiredEnv_ok hkey
    have hsame : key = strip key ∧ TreeMiner.signingString workerId
        (commandId.getD (src.commandId message)) src.clock
        (src.clock + lifetimeSec.getD signer.lifetimeSec) nonce (C.render w) =
        signingString workerId (commandId.getD (src.commandId message)) src.clock
          (src.clock + lifetimeSec.getD signer.lifetimeSec) nonce
          (String.ofList (compactStyle.write
            ((JsonTree.object message.body).map (numberText floatRepr)).norm)) := by
      by_contra hdiff
      simp only [hmac, and_self, if_true, if_neg hdiff] at hmaceq
      exact absurd hmaceq (by decide)
    have hrender := (signingString_inj.1 hsame.2.symm).symm
    refine ⟨hsame.1.symm, ?_, ?_, hissued, hexpires⟩
    · have := ((Codec.ofTree_isSome_iff (by decide)).1 ⟨w, hw⟩).1
      rwa [← htexts, JsonTree.depth_map] at this
    · exact (render_body_iff hC hint (body_distinct message) (htexts ▸ hw)).1 hrender
  · intro h hmac y hy
    rw [hall hmac] at hy
    cases hy
    have hread : ∃ w, Value.ofTree C.number (.object (texts floatRepr message.body))
        RECURSION_LIMIT = some w := by
      rw [← htexts, Codec.ofTree_isSome_iff (by decide), JsonTree.depth_map]
      refine ⟨h.depth, fun t ht => ?_⟩
      rw [JsonTree.numbers_map, List.mem_map] at ht
      obtain ⟨m, hm, rfl⟩ := ht
      obtain ⟨n, rfl⟩ := hint m hm
      exact ⟨_, hC.number_int n (h.ints n hm).1 (h.ints n hm).2⟩
    obtain ⟨w, hw⟩ := hread
    have hkey : requiredEnv ENV_COMMAND_SECRET (some value) = .ok value := by
      rw [h.secret] at hne
      unfold requiredEnv
      dsimp only
      rw [if_neg]
      simpa using hne
    refine (accepted_iff hC hint hworker hcid hnonce hlifetime hstart hend).2
      ⟨value, w, hkey, hw, h.issued, h.expires, ?_⟩
    have hrender := (render_body_iff hC hint (body_distinct message) (htexts ▸ hw)).2 h.ints
    rw [h.secret, hrender]
    rfl

end

/-! ## Two settings -/

/-- A `pause` command. -/
def pauseMessage : Message where
  members := [("action", .string "pause"), ("auth", .null), ("round", .number (.int 7))]
  distinct := by
    simp [JsonTree.Distinct]

def sampleSigner : CommandSigner where
  lifetimeSec := 60
  recentNonces := []
  lifetime_valid := by decide

def sampleSources : Sources where
  nonce _ := "00112233445566778899aabbccddeeff"
  commandId _ := "pause-1"
  clock := 1700000000

def zeroRepr (_ : F64) : List Char := ['0', '.', '0']

/-- A MAC that keeps the length of the key. -/
def lengthMac (key _ : String) : Vector UInt8 32 := Vector.replicate 32 (UInt8.ofNat key.length)

theorem sample_signed {value : String} (h : loadCommandSecret (some value) = .ok "s") : ∃ x,
    sign zeroRepr lengthMac sampleSigner (some value) sampleSources pauseMessage "rig-1" none none =
      .ok x := by
  unfold sign
  rw [h]
  exact ⟨_, rfl⟩

/-- A line feed behind the secret, and the command is refused. -/
theorem line_feed_refused : ∃ x, sign zeroRepr lengthMac sampleSigner (some "s\n") sampleSources
      pauseMessage "rig-1" none none = .ok x ∧
    ¬ Accepted Codec.sampleTree zeroRepr lengthMac "s\n" "rig-1" 1700000000 16 x.1 := by
  obtain ⟨⟨payload, recent⟩, hx⟩ :=
    sample_signed (show loadCommandSecret (some "s\n") = .ok "s" from rfl)
  refine ⟨_, hx, fun hacc => ?_⟩
  obtain ⟨secret, body, nonce, hsecret, hbody, hworker, hcid, -, hnonce, hall⟩ := sign_ok hx
  rw [hall lengthMac] at hx
  cases hx
  obtain ⟨key, w, hkey, -, -, -, hmac⟩ := (accepted_iff Codec.sampleTree_reader
    (canonicalBody_ok hbody).1 hworker hcid hnonce (by decide) (by decide) (by decide)).1 hacc
  rw [requiredEnv_ok hkey, (loadCommandSecret_ok hsecret).1] at hmac
  revert hmac
  unfold lengthMac
  decide

theorem pause_accepted : Agrees "s" pauseMessage 1700000000 1700000060 ∧
    ∀ hmac y, sign zeroRepr hmac sampleSigner (some "s") sampleSources pauseMessage "rig-1" none
        none = .ok y →
      Accepted Codec.sampleTree zeroRepr hmac "s" "rig-1" 1700000000 16 y.1 := by
  obtain ⟨x, hx⟩ := sample_signed (show loadCommandSecret (some "s") = .ok "s" from rfl)
  have hbody : pauseMessage.body = [("action", .string "pause"), ("round", .number (.int 7))] := rfl
  have hagrees : Agrees "s" pauseMessage 1700000000 1700000060 := by
    refine ⟨by decide, ?_, fun n hn => ?_, by decide, by decide⟩
    · rw [hbody]
      simp [JsonTree.depth, RECURSION_LIMIT]
    · rw [hbody] at hn
      simp only [JsonTree.numbers, List.flatMap_cons, List.flatMap_nil, List.append_nil,
        List.nil_append, List.mem_singleton, PyNumber.int.injEq] at hn
      subst hn
      decide
  exact ⟨hagrees,
    (signed_accepted_iff Codec.sampleTree_reader hx (by decide) (by decide)).2 hagrees⟩

end Server

end TreeMiner
