import Mathlib.Algebra.Order.BigOperators.Group.List
import TreeMiner.Platform.Proto
import TreeMiner.Server.Agreement
import TreeMiner.Server.EthAddress
import TreeMiner.Server.Watcher

/-! Renting hashpower: the request becomes a lease, the lease a signed `assign_task`, and the
rig decides on the fields it reads from it. -/

namespace TreeMiner.Server

open Lib Lib.Json

/-! ## The command id -/

def stripDashes (cs : List Char) : List Char :=
  ((cs.dropWhile (· = '-')).reverse.dropWhile (· = '-')).reverse

/-- The name a command id starts with. -/
def commandLabel (message : Message) : String :=
  let get key := (message.members.lookup key).filter truthy
  match (get "command").or (get "action") with
  | some (.string label) => label
  | _ => "cmd"

def cleanLabel (label : String) : List Char :=
  let cleaned := stripDashes
    ((label.toList.map fun c => if isIdAllowed c then c else '-').take 32)
  if cleaned = [] then ['c', 'm', 'd'] else cleaned

/-- `_default_command_id`, with the digits of its `uuid4`. -/
def defaultCommandId (uuidHex : String) (message : Message) : String :=
  String.ofList ((cleanLabel (commandLabel message) ++ '-' :: uuidHex.toList).take MAX_ID_LEN)

theorem mem_stripDashes {cs : List Char} {c : Char} (h : c ∈ stripDashes cs) : c ∈ cs := by
  unfold stripDashes at h
  have h := (List.dropWhile_sublist _).mem (List.mem_reverse.1 h)
  exact (List.dropWhile_sublist _).mem (List.mem_reverse.1 h)

theorem isIdAllowed_of_hexdigit {c : Char} (h : isAsciiHexdigit c = true) :
    isIdAllowed c = true := by
  simp [isIdAllowed, isAsciiAlphanumeric_of_hexdigit h]

theorem isIdAllowed_of_cleanLabel {label : String} {c : Char} (h : c ∈ cleanLabel label) :
    isIdAllowed c = true := by
  unfold cleanLabel at h
  dsimp only at h
  split_ifs at h
  · have hall : ['c', 'm', 'd'].all isIdAllowed = true := by decide
    exact List.all_eq_true.1 hall c h
  · obtain ⟨d, -, rfl⟩ := List.mem_map.1 (List.mem_of_mem_take (mem_stripDashes h))
    split_ifs with hd
    · exact hd
    · decide

theorem isSafeIdentifier_take {cs : List Char} {n : Nat} (hn : 1 ≤ n) (hne : cs ≠ [])
    (h : ∀ c ∈ cs, isIdAllowed c = true) :
    isSafeIdentifier (String.ofList (cs.take n)) 1 n = true := by
  have hlen := List.length_pos_of_ne_nil hne
  unfold isSafeIdentifier
  simp only [Bool.and_eq_true, decide_eq_true_eq, List.all_eq_true, String.length_ofList,
    String.toList_ofList, List.length_take]
  exact ⟨⟨by omega, min_le_left _ _⟩, fun c hc => h c (List.mem_of_mem_take hc)⟩

/-- The default command id can always be signed under. -/
theorem defaultCommandId_safe {uuidHex : String} (h : isHexString uuidHex 32 32 = true)
    (message : Message) :
    isSafeIdentifier (defaultCommandId uuidHex message) 1 MAX_ID_LEN = true := by
  unfold isHexString at h
  simp only [Bool.and_eq_true, List.all_eq_true] at h
  unfold defaultCommandId
  refine isSafeIdentifier_take (by decide) (by simp) fun c hc => ?_
  rcases List.mem_append.1 hc with hc | hc
  · exact isIdAllowed_of_cleanLabel hc
  · rcases List.mem_cons.1 hc with rfl | hc
    · decide
    · exact isIdAllowed_of_hexdigit (h.2 c hc)

/-! ## The lease -/

def NONCE_HEX_LEN : Nat := 32

/-- What a rental draws: the ids, the prefix and the nonces of `uuid` and `secrets`, and the
time of signing. -/
structure RentDraws where
  leaseUuid : String
  keyPrefix : String
  commandUuid : String
  nonce : Nat → String
  clock : Int
  leaseUuid_ok : leaseUuid.length = 36 ∧
    leaseUuid.toList.all (fun c => isAsciiHexdigit c || c = '-') = true
  keyPrefix_ok : isHexString keyPrefix PLATFORM_PREFIX_LENGTH PLATFORM_PREFIX_LENGTH = true
  commandUuid_ok : isHexString commandUuid 32 32 = true
  nonce_ok : ∀ i, isHexString (nonce i) NONCE_HEX_LEN NONCE_HEX_LEN = true
  clock_ok : 0 ≤ clock ∧ clock < 2 ^ 62

def RentDraws.leaseId (draws : RentDraws) : String := "lease-" ++ draws.leaseUuid

def RentDraws.sources (draws : RentDraws) : Sources :=
  ⟨draws.nonce, defaultCommandId draws.commandUuid, draws.clock⟩

/-- `get_active_lease_for_worker` finds one. -/
def Db.hasActiveLease (d : Db) (workerId : String) : Bool :=
  d.leases.rows.any fun l => l.2.workerId = workerId && l.2.state = .active

def Db.rentable (d : Db) (workerId : String) (w : Worker) : Bool :=
  w.state = "AVAILABLE" && !d.hasActiveLease workerId

/-- The worker asked for, or the first that is free. -/
def Db.rentTarget (d : Db) (workerId : Option String) : Option (String × Worker) :=
  match workerId.filter (· ≠ "") with
  | some workerId => ((d.workers.get workerId).filter (d.rentable workerId)).map (workerId, ·)
  | none => d.workers.rows.find? fun row => d.rentable row.1 row.2

def taskMembers (leaseId consumerId consumerAddress keyPrefix : String) (durationSec : Int) :
    List (String × PyValue) :=
  [("command", .string "assign_task"), ("lease_id", .string leaseId),
    ("consumer_id", .string consumerId), ("consumer_address", .string consumerAddress),
    ("prefix", .string keyPrefix), ("duration_sec", .number (.int durationSec))]

/-- The `assign_task` of a lease. -/
def assignTask (leaseId consumerId consumerAddress keyPrefix : String) (durationSec : Int) :
    Message where
  members := taskMembers leaseId consumerId consumerAddress keyPrefix durationSec
  distinct := by
    unfold taskMembers
    simp [JsonTree.Distinct]

inductive RentError
  | badAddress
  | secretMissing
  /-- the lease row is refused -/
  | storage
deriving DecidableEq, Repr

/-- A call that raises before a lease is written, finds no worker, or writes the lease and then
publishes its task, which may raise. -/
inductive RentResult
  | raised (e : RentError)
  | noWorker
  | created (d : Db) (workerId : String) (task : Message)
      (published : Except CommandSigningError PyValue)

section

variable (floatRepr : F64 → List Char) (hmacSha256 : String → String → Vector UInt8 32)

/-- `publish_command` on the task topic: the text that is delivered. -/
def publishCommand (signer : CommandSigner) (env : Option String) (src : Sources)
    (payload : Message) (workerId : String) : Except CommandSigningError PyValue := do
  if !isSafeIdentifier workerId 1 MAX_ID_LEN then
    -- behind it stands the `repr` of the id
    throw (.notSignable "Refusing to publish to an unsafe worker id")
  let (signed, _) ← sign floatRepr hmacSha256 signer env src payload workerId none none
  if (wire floatRepr signed).utf8ByteSize > MAX_PAYLOAD_BYTES then
    throw (.notSignable (
      s!"Command for {workerId} is {(wire floatRepr signed).utf8ByteSize} bytes, " ++
      s!"over the {MAX_PAYLOAD_BYTES}-byte cap the worker enforces"))
  return signed

/-- `MatchingEngine.rent_hashpower`. An `INTEGER` takes 64 bits. -/
def rentHashpower (keccak256 : List UInt8 → Vector UInt8 32) (signer : CommandSigner)
    (env : Option String) (draws : RentDraws) (now : ℚ) (d : Db)
    (consumerId consumerAddress : String) (durationSec : Int) (workerId : Option String) :
    RentResult :=
  if !isValidEthereumAddress keccak256 consumerAddress then .raised .badAddress
  else
    match loadCommandSecret env with
    | .error _ => .raised .secretMissing
    | .ok _ =>
      match d.rentTarget workerId with
      | none => .noWorker
      | some (target, w) =>
        let lease : Lease :=
          ⟨target, consumerId, durationSec, w.pricePerMin / 60, .active, now, none, 0, 0, 0⟩
        let write := Write.createLease draws.leaseId lease
        if ¬ (i64Min ≤ durationSec ∧ durationSec ≤ i64Max) ∨ d.rejects write then .raised .storage
        else
          let task :=
            assignTask draws.leaseId consumerId consumerAddress draws.keyPrefix durationSec
          .created ((d.apply write).apply (.setWorkerState target "LEASED")) target task
            (publishCommand floatRepr hmacSha256 signer env draws.sources task target)

end

/-! ## How long the text is -/

theorem utf8ByteSize_le (cs : List Char) : (String.ofList cs).utf8ByteSize ≤ 4 * cs.length := by
  induction cs with
  | nil => exact Nat.zero_le _
  | cons c cs ih =>
    have hsplit : String.ofList (c :: cs) = String.singleton c ++ String.ofList cs := by
      rw [String.singleton_eq_ofList, ← String.ofList_append, List.singleton_append]
    have hc := c.utf8Size_le_four
    rw [hsplit, String.utf8ByteSize_append, String.utf8ByteSize_singleton, List.length_cons]
    omega

theorem length_hexPad4 (n : Nat) : (hexPad4 n).length = 4 := rfl

theorem length_ite_le {p : Prop} [Decidable p] {s t : List Char} {n : Nat} (hs : s.length ≤ n)
    (ht : t.length ≤ n) : (if p then s else t).length ≤ n := by
  split
  · exact hs
  · exact ht

theorem length_encodeChar_le (c : Char) : (encodeChar true c).length ≤ 12 := by
  unfold encodeChar
  repeat' apply length_ite_le
  all_goals simp [length_hexPad4]

theorem length_string_le (s : String) : (defaultStyle.string s).length ≤ 12 * s.length + 2 := by
  have hbody : ∀ cs : List Char,
      (cs.flatMap defaultStyle.escape).length ≤ 12 * cs.length := by
    intro cs
    induction cs with
    | nil => exact Nat.zero_le _
    | cons c cs ih =>
      have hc := length_encodeChar_le c
      rw [List.flatMap_cons, List.length_append, List.length_cons]
      have : (defaultStyle.escape c).length = (encodeChar true c).length := rfl
      omega
  have := hbody s.toList
  rw [String.length_toList] at this
  unfold Style.string
  rw [List.length_cons, List.length_append, List.length_singleton]
  omega

/-- The digits of an integer that is not negative. -/
theorem length_toString_le {n : Int} (h : 0 ≤ n ∧ n < 10 ^ 20) :
    (toString n).toList.length ≤ 20 := by
  obtain ⟨k, rfl⟩ := Int.eq_ofNat_of_zero_le h.1
  have hk : k < 10 ^ 20 := by omega
  change (Nat.repr k).toList.length ≤ 20
  rw [String.length_toList]
  exact (Nat.length_repr_le_iff (by decide)).2 hk

theorem length_join_le (xs : List (List Char)) :
    (defaultStyle.join xs).length ≤ (xs.map fun x => x.length + 2).sum := by
  induction xs with
  | nil => exact Nat.zero_le _
  | cons x xs ih =>
    cases xs with
    | nil => simp [Style.join]
    | cons y ys =>
      have hgap : defaultStyle.gap.length = 1 := rfl
      rw [Style.join, List.length_append, List.length_cons, List.length_append, List.map_cons,
        List.sum_cons]
      · omega
      · simp

theorem length_object_le {ms : List (String × JsonTree (List Char))}
    (h : ∀ m ∈ ms, m.1.length ≤ 16) : (defaultStyle.write (.object ms)).length ≤
      (ms.map fun m => (defaultStyle.write m.2).length + 198).sum + 2 := by
  have hmember : ∀ m ∈ ms, (defaultStyle.member m).length + 2 ≤
      (defaultStyle.write m.2).length + 198 := by
    intro m hm
    have hkey := length_string_le m.1
    have hgap : defaultStyle.gap.length = 1 := rfl
    have := h m hm
    unfold Style.member
    rw [List.length_append, List.length_cons, List.length_append]
    omega
  have hjoin := length_join_le (ms.map defaultStyle.member)
  rw [List.map_map] at hjoin
  rw [Style.write_object, List.length_cons, List.length_append, List.length_singleton]
  exact Nat.add_le_add_right (le_trans hjoin (List.sum_le_sum hmember)) 2

theorem assignTask_body (leaseId consumerId consumerAddress keyPrefix : String)
    (durationSec : Int) :
    (assignTask leaseId consumerId consumerAddress keyPrefix durationSec).body =
      taskMembers leaseId consumerId consumerAddress keyPrefix durationSec := by
  unfold Message.body assignTask taskMembers
  simp

section

variable {floatRepr : F64 → List Char}

/-- The task of a lease the rig would take stays under the cap. -/
theorem wire_task_size
    {leaseId consumerId consumerAddress keyPrefix workerId cid nonce sig : String}
    {durationSec issuedAt expiresAt : Int} (hlease : leaseId.length ≤ 64)
    (hconsumer : consumerId.length ≤ 64) (haddress : consumerAddress.length ≤ 64)
    (hkey : keyPrefix.length ≤ 64) (hworker : workerId.length ≤ 128) (hcid : cid.length ≤ 128)
    (hnonce : nonce.length ≤ 128) (hsig : sig.length ≤ 64)
    (hduration : 0 ≤ durationSec ∧ durationSec < 10 ^ 20)
    (hissued : 0 ≤ issuedAt ∧ issuedAt < 10 ^ 20)
    (hexpires : 0 ≤ expiresAt ∧ expiresAt < 10 ^ 20) :
    (wire floatRepr (.object ((assignTask leaseId consumerId consumerAddress keyPrefix
      durationSec).body ++
        [("auth", authMember workerId cid issuedAt expiresAt nonce sig)]))).utf8ByteSize ≤
      MAX_PAYLOAD_BYTES := by
  have hstring : ∀ s : String, (defaultStyle.write (.string s)).length ≤ 12 * s.length + 2 := by
    intro s
    rw [Style.write]
    exact length_string_le s
  have hnumber : ∀ n : Int, 0 ≤ n ∧ n < 10 ^ 20 →
      (defaultStyle.write (.number (toString n).toList)).length ≤ 20 := by
    intro n hn
    rw [Style.write]
    exact length_toString_le hn
  have hauth : (defaultStyle.write (.object
      (authTexts workerId cid issuedAt expiresAt nonce sig))).length ≤ 6700 := by
    refine le_trans (length_object_le (by unfold authTexts; simp; decide)) ?_
    have := hstring workerId
    have := hstring cid
    have := hnumber issuedAt hissued
    have := hnumber expiresAt hexpires
    have := hstring nonce
    have := hstring sig
    unfold authTexts
    simp only [List.map_cons, List.map_nil, List.sum_cons, List.sum_nil]
    omega
  have hname : (defaultStyle.write (.string "assign_task")).length ≤ 134 := hstring "assign_task"
  have := hstring leaseId
  have := hstring consumerId
  have := hstring consumerAddress
  have := hstring keyPrefix
  have := hnumber durationSec hduration
  unfold wire
  rw [signed_map, assignTask_body]
  refine le_trans (utf8ByteSize_le _) ?_
  have hall := @length_object_le (texts floatRepr (taskMembers leaseId consumerId consumerAddress
    keyPrefix durationSec) ++
      [("auth", .object (authTexts workerId cid issuedAt expiresAt nonce sig))])
    (by unfold texts taskMembers; simp; decide)
  unfold texts taskMembers at hall ⊢
  simp only [List.map_cons, List.map_nil, List.cons_append, List.nil_append, List.sum_cons,
    List.sum_nil, JsonTree.map, numberText] at hall ⊢
  unfold MAX_PAYLOAD_BYTES
  omega

end

/-! ## The task on the rig -/

section

variable {C : Codec} {floatRepr : F64 → List Char} {hmacSha256 : String → String → Vector UInt8 32}
  {leaseId consumerId consumerAddress keyPrefix : String} {durationSec : Int}

/-- The rig reads the task as it was put together. -/
theorem commandFromValue_task (hC : C.Reader) {workerId cid nonce sig : String}
    {issuedAt expiresAt : Int} (hduration : i64Min ≤ durationSec ∧ durationSec ≤ i64Max)
    {msg : Value} (h : Value.ofTree C.number ((JsonTree.object ((assignTask leaseId consumerId
      consumerAddress keyPrefix durationSec).body ++
        [("auth", authMember workerId cid issuedAt expiresAt nonce sig)])).map
          (numberText floatRepr)) RECURSION_LIMIT = some msg) :
    commandFromValue msg = .ok (.assignTask
      ⟨leaseId, consumerId, consumerAddress, keyPrefix, durationSec⟩) := by
  have hkeys := @body_keys floatRepr (assignTask leaseId consumerId consumerAddress keyPrefix
    durationSec) (.object (authTexts workerId cid issuedAt expiresAt nonce sig))
  rw [signed_map] at h
  have hobj := Codec.isObject_ofTree h hkeys
  have hget : ∀ key d, (key, d) ∈ texts floatRepr (assignTask leaseId consumerId
      consumerAddress keyPrefix durationSec).body → ∃ x,
      Value.ofTree C.number d (RECURSION_LIMIT - 1) = some x ∧ msg.get key = some x :=
    fun key d hd => Codec.get_ofTree h hkeys (List.mem_append_left _ hd)
  have hstring : ∀ key s, (key, JsonTree.string s) ∈ texts floatRepr (assignTask leaseId consumerId
      consumerAddress keyPrefix durationSec).body → msg.get key = some (.string s) := by
    intro key s hs
    obtain ⟨x, hx, hkey⟩ := hget key _ hs
    rw [Value.ofTree] at hx
    cases hx
    exact hkey
  have hint : msg.get "duration_sec" = some (.number (.int durationSec)) := by
    obtain ⟨x, hx, hkey⟩ := hget "duration_sec" (.number (toString durationSec).toList) (by
      rw [assignTask_body]
      unfold texts taskMembers
      simp [JsonTree.map, numberText])
    rw [Value.ofTree,
      hC.number_int durationSec hduration.1 (le_trans hduration.2 (by decide))] at hx
    cases hx
    exact hkey
  rw [assignTask_body] at hstring
  unfold texts taskMembers at hstring
  have hcommand := hstring "command" "assign_task" (by simp [JsonTree.map])
  have hlease := hstring "lease_id" leaseId (by simp [JsonTree.map])
  have hconsumer := hstring "consumer_id" consumerId (by simp [JsonTree.map])
  have haddress := hstring "consumer_address" consumerAddress (by simp [JsonTree.map])
  have hkey := hstring "prefix" keyPrefix (by simp [JsonTree.map])
  have htask : assignTaskFromValue msg =
      some ⟨leaseId, consumerId, consumerAddress, keyPrefix, durationSec⟩ := by
    unfold assignTaskFromValue Value.fieldOr
    simp [hlease, hconsumer, haddress, hkey, hint, Value.asString, Value.asI64, Number.asI64,
      hduration]
  unfold commandFromValue commandNamed
  rw [hobj, hcommand, htask]
  simp [named]
  decide

theorem canonicalBody_task : ∃ body, canonicalBody floatRepr
    (assignTask leaseId consumerId consumerAddress keyPrefix durationSec) = .ok body := by
  unfold canonicalBody
  rw [assignTask_body]
  unfold taskMembers
  simp [rejectUncanonicalisable, rejectMembers, bind, Except.bind, pure, Except.pure]

end

/-! ## Signing the task -/

theorem freshNonce_isOk_iff {recent : List String} {draw : Nat → String}
    (h : ∀ i, isHexString (draw i) MIN_NONCE_HEX_LEN MAX_NONCE_HEX_LEN = true) (i tries : Nat) :
    (∃ x, freshNonce recent draw i tries = .ok x) ↔ ∃ j < tries, draw (i + j) ∉ recent := by
  induction tries generalizing i with
  | zero => simp [freshNonce]
  | succ tries ih =>
    rw [freshNonce, h i, if_neg (by simp)]
    split_ifs with hseen
    · rw [ih]
      constructor
      · rintro ⟨j, hj, hfresh⟩
        exact ⟨j + 1, by omega, by rwa [← Nat.add_assoc, Nat.add_right_comm]⟩
      · rintro ⟨j, hj, hfresh⟩
        cases j with
        | zero => exact absurd hseen hfresh
        | succ j => exact ⟨j, by omega, by rwa [Nat.add_right_comm, Nat.add_assoc]⟩
    · exact iff_of_true ⟨_, rfl⟩ ⟨0, by omega, hseen⟩

section

variable {floatRepr : F64 → List Char} {hmacSha256 : String → String → Vector UInt8 32}
  {signer : CommandSigner} {env : Option String} {src : Sources} {message : Message}
  {workerId secret body : String}

theorem sign_isOk_iff (hsecret : loadCommandSecret env = .ok secret)
    (hbody : canonicalBody floatRepr message = .ok body)
    (hcid : isSafeIdentifier (src.commandId message) 1 MAX_ID_LEN = true) :
    (∃ x, sign floatRepr hmacSha256 signer env src message workerId none none = .ok x) ↔
      isSafeIdentifier workerId 1 MAX_ID_LEN = true ∧
        ∃ x, freshNonce signer.recentNonces src.nonce 0 8 = .ok x := by
  have hwindow := signer.lifetime_valid
  unfold sign
  simp only [bind, Except.bind, pure, Except.pure, throw, throwThe, MonadExceptOf.throw, hsecret,
    hbody, hcid, Option.getD_none, hwindow]
  cases hworker : isSafeIdentifier workerId 1 MAX_ID_LEN with
  | false => simp
  | true =>
    cases hnonce : freshNonce signer.recentNonces src.nonce 0 8 with
    | error e => simp
    | ok x => simp

end

/-! ## A lease that is taken -/

theorem RentDraws.leaseId_safe (draws : RentDraws) :
    isSafeIdentifier draws.leaseId 1 MAX_LEASE_ID_LEN = true := by
  obtain ⟨hlen, hall⟩ := draws.leaseUuid_ok
  have htext : draws.leaseId.toList = "lease-".toList ++ draws.leaseUuid.toList :=
    String.toList_append
  have hlength : draws.leaseId.length = 42 := by
    rw [← String.length_toList, htext, List.length_append, String.length_toList,
      String.length_toList, hlen]
    rfl
  unfold isSafeIdentifier
  rw [hlength, htext, List.all_append]
  refine Bool.and_eq_true_iff.2 ⟨by decide, Bool.and_eq_true_iff.2 ⟨by decide, ?_⟩⟩
  refine List.all_eq_true.2 fun c hc => ?_
  have := List.all_eq_true.1 hall c hc
  rcases Bool.or_eq_true_iff.1 this with hhex | hdash
  · exact isIdAllowed_of_hexdigit hhex
  · obtain rfl := of_decide_eq_true hdash
    decide

/-- The task is signed and published, and an available rig that reads it takes every field. -/
def Taken (C : Codec) (keccak256 : List UInt8 → Vector UInt8 32) (floatRepr : F64 → List Char)
    (published : Except CommandSigningError PyValue) : Prop :=
  ∃ signed msg task, published = .ok signed ∧ C.fromStr (wire floatRepr signed) = some msg ∧
    commandFromValue msg = .ok (.assignTask task) ∧
    ∀ (m : PlatformManager) (env : PlatformEnv), m.state = .available →
      (m.handleAssignTask keccak256 task env).1 = .ok ()

/-- What a request and the state it meets must be for the rig to take the lease. -/
structure Takeable (signer : CommandSigner) (draws : RentDraws) (d : Db)
    (consumerId consumerAddress : String) (durationSec : Int) (workerId : Option String) :
    Prop where
  consumer : isSafeIdentifier consumerId 1 MAX_LEASE_ID_LEN = true
  address : consumerAddress.toList.getLast? ≠ some '\n'
  duration : MIN_LEASE_DURATION_SEC ≤ durationSec ∧ durationSec ≤ MAX_LEASE_DURATION_SEC
  worker : ∀ row, d.rentTarget workerId = some row → isSafeIdentifier row.1 1 MAX_ID_LEN = true
  nonce : ∃ i < 8, draws.nonce i ∉ signer.recentNonces

section

variable {C : Codec} {keccak256 : List UInt8 → Vector UInt8 32} {floatRepr : F64 → List Char}
  {hmacSha256 : String → String → Vector UInt8 32} {signer : CommandSigner} {env : Option String}
  {draws : RentDraws} {now : ℚ} {d d' : Db} {consumerId consumerAddress target : String}
  {durationSec : Int} {workerId : Option String} {task : Message}
  {published : Except CommandSigningError PyValue}

theorem rentHashpower_created (h : rentHashpower floatRepr hmacSha256 keccak256 signer env draws now
      d consumerId consumerAddress durationSec workerId = .created d' target task published) :
    isValidEthereumAddress keccak256 consumerAddress = true ∧
      (∃ secret, loadCommandSecret env = .ok secret) ∧
      (∃ w, d.rentTarget workerId = some (target, w)) ∧
      (i64Min ≤ durationSec ∧ durationSec ≤ i64Max) ∧
      task = assignTask draws.leaseId consumerId consumerAddress draws.keyPrefix durationSec ∧
      published = publishCommand floatRepr hmacSha256 signer env draws.sources task target := by
  unfold rentHashpower at h
  split_ifs at h with haddress
  split at h
  · cases h
  next secret hsecret =>
    split at h
    · cases h
    next row w hrow =>
      dsimp only at h
      split_ifs at h with hrange
      rw [RentResult.created.injEq] at h
      obtain ⟨-, rfl, rfl, rfl⟩ := h
      refine ⟨by simpa using haddress, ⟨secret, hsecret⟩, ⟨w, hrow⟩, ?_, rfl, rfl⟩
      exact not_not.1 (not_or.1 hrange).1

theorem length_le_of_safe {value : String} {minLen maxLen : Nat}
    (h : isSafeIdentifier value minLen maxLen = true) : value.length ≤ maxLen := by
  unfold isSafeIdentifier at h
  simp only [Bool.and_eq_true, decide_eq_true_eq] at h
  exact h.1.2

theorem length_le_of_hex {value : String} {minLen maxLen : Nat}
    (h : isHexString value minLen maxLen = true) : value.length ≤ maxLen := by
  unfold isHexString at h
  simp only [Bool.and_eq_true, decide_eq_true_eq] at h
  exact h.1.2

theorem length_hexEncode (bs : List UInt8) : (hexEncode bs).length = 2 * bs.length := by
  unfold hexEncode
  rw [String.length_ofList, List.length_flatMap]
  simp [Nat.mul_comm]

theorem publishCommand_ok_iff {src : Sources} {payload : Message} {signed : PyValue} :
    publishCommand floatRepr hmacSha256 signer env src payload target = .ok signed ↔
      isSafeIdentifier target 1 MAX_ID_LEN = true ∧
      (∃ recent, sign floatRepr hmacSha256 signer env src payload target none none =
        .ok (signed, recent)) ∧ (wire floatRepr signed).utf8ByteSize ≤ MAX_PAYLOAD_BYTES := by
  unfold publishCommand
  simp only [bind, Except.bind, pure, Except.pure, throw, throwThe, MonadExceptOf.throw]
  cases hworker : isSafeIdentifier target 1 MAX_ID_LEN with
  | false => simp
  | true =>
    cases hsign : sign floatRepr hmacSha256 signer env src payload target none none with
    | error e => simp
    | ok x =>
      obtain ⟨payload, recent⟩ := x
      by_cases hsize : (wire floatRepr payload).utf8ByteSize > MAX_PAYLOAD_BYTES
      · simp [hsize]
        rintro rfl
        exact hsize
      · simp [hsize]
        rintro rfl
        omega

/-- The signed task, as it is delivered. -/
theorem signed_task {signed : PyValue} {recent : List String} (h : sign floatRepr hmacSha256 signer
      env draws.sources message target none none = .ok (signed, recent)) :
    ∃ nonce sig, nonce.length ≤ 128 ∧ sig.length ≤ 64 ∧ signed = .object (message.body ++
      [("auth", authMember target (defaultCommandId draws.commandUuid message) draws.clock
        (draws.clock + signer.lifetimeSec) nonce sig)]) := by
  obtain ⟨secret, body, nonce, -, -, -, -, -, hnonce, hall⟩ := sign_ok h
  rw [hall hmacSha256, Except.ok.injEq, Prod.mk.injEq] at h
  refine ⟨nonce, _, length_le_of_hex hnonce, ?_, h.1.symm⟩
  unfold hmacSha256Hex
  rw [length_hexEncode, Vector.length_toList]

/-- The rig reads the text of a signed task. -/
theorem task_read (hC : C.Reader) {nonce sig : String}
    (hduration : i64Min ≤ durationSec ∧ durationSec ≤ i64Max) :
    ∃ msg, C.fromStr (wire floatRepr (.object ((assignTask draws.leaseId consumerId consumerAddress
        draws.keyPrefix durationSec).body ++ [("auth", authMember target
          (defaultCommandId draws.commandUuid message) draws.clock
            (draws.clock + signer.lifetimeSec) nonce sig)]))) = some msg ∧
      commandFromValue msg = .ok (.assignTask
        ⟨draws.leaseId, consumerId, consumerAddress, draws.keyPrefix, durationSec⟩) := by
  obtain ⟨body, hbody⟩ := @canonicalBody_task floatRepr draws.leaseId consumerId consumerAddress
    draws.keyPrefix durationSec
  have hint := (canonicalBody_ok hbody).1
  have hclock := draws.clock_ok
  have hlife := signer.lifetime_valid
  have hread : ∃ w, Value.ofTree C.number (.object (texts floatRepr (assignTask draws.leaseId
      consumerId consumerAddress draws.keyPrefix durationSec).body)) RECURSION_LIMIT = some w := by
    rw [assignTask_body, Codec.ofTree_isSome_iff (by decide)]
    unfold texts taskMembers
    refine ⟨by simp [JsonTree.depth, JsonTree.map, RECURSION_LIMIT], fun t ht => ?_⟩
    simp only [List.map_cons, List.map_nil, JsonTree.map, JsonTree.numbers, List.flatMap_cons,
      List.flatMap_nil, List.nil_append, List.append_nil, List.mem_singleton] at ht
    subst ht
    exact ⟨_, hC.number_int durationSec hduration.1 (le_trans hduration.2 (by decide))⟩
  obtain ⟨w, hw⟩ := hread
  unfold MAX_LIFETIME_SEC at hlife
  have hissued : i64Min ≤ draws.clock ∧ draws.clock ≤ i64Max := by
    unfold i64Min i64Max
    omega
  have hexpires : i64Min ≤ draws.clock + signer.lifetimeSec ∧
      draws.clock + signer.lifetimeSec ≤ i64Max := by
    unfold i64Min i64Max
    omega
  obtain ⟨msg, hmsg⟩ := read_isSome hC target (defaultCommandId draws.commandUuid message) nonce sig
    hw hissued hexpires
  rw [fromStr_wire hC (integral_signed hint _ _ _ _ _ _)]
  exact ⟨msg, hmsg, commandFromValue_task hC hduration hmsg⟩

theorem published_taken_iff {secret : String} (hC : C.Reader)
    (hsecret : loadCommandSecret env = .ok secret)
    (haddress : isValidEthereumAddress keccak256 consumerAddress = true)
    (hrange : i64Min ≤ durationSec ∧ durationSec ≤ i64Max) :
    Taken C keccak256 floatRepr (publishCommand floatRepr hmacSha256 signer env draws.sources
        (assignTask draws.leaseId consumerId consumerAddress draws.keyPrefix durationSec) target) ↔
      isSafeIdentifier consumerId 1 MAX_LEASE_ID_LEN = true ∧
      consumerAddress.toList.getLast? ≠ some '\n' ∧
      (MIN_LEASE_DURATION_SEC ≤ durationSec ∧ durationSec ≤ MAX_LEASE_DURATION_SEC) ∧
      isSafeIdentifier target 1 MAX_ID_LEN = true ∧
      ∃ i < 8, draws.nonce i ∉ signer.recentNonces := by
  obtain ⟨body, hbody⟩ := @canonicalBody_task floatRepr draws.leaseId consumerId consumerAddress
    draws.keyPrefix durationSec
  have hcid := defaultCommandId_safe draws.commandUuid_ok (assignTask draws.leaseId consumerId
    consumerAddress draws.keyPrefix durationSec)
  have hsign := @sign_isOk_iff floatRepr hmacSha256 signer env draws.sources _ target secret body
    hsecret hbody hcid
  have hdraws : ∀ i, isHexString (draws.nonce i) MIN_NONCE_HEX_LEN MAX_NONCE_HEX_LEN = true := by
    intro i
    have := draws.nonce_ok i
    unfold isHexString at this ⊢
    simp only [Bool.and_eq_true, decide_eq_true_eq] at this ⊢
    unfold NONCE_HEX_LEN at this
    unfold MIN_NONCE_HEX_LEN MAX_NONCE_HEX_LEN
    exact ⟨⟨by omega, by omega⟩, this.2⟩
  have hfresh := @freshNonce_isOk_iff signer.recentNonces draws.nonce hdraws 0 8
  simp only [Nat.zero_add] at hfresh
  constructor
  · rintro ⟨signed, msg, task, hpublished, hmsg, htask, htaken⟩
    obtain ⟨hworker, ⟨recent, hx⟩, -⟩ := publishCommand_ok_iff.1 hpublished
    obtain ⟨nonce, sig, -, -, rfl⟩ := signed_task hx
    obtain ⟨msg', hmsg', htask'⟩ := @task_read _ floatRepr signer draws consumerId consumerAddress
      target durationSec (assignTask draws.leaseId consumerId consumerAddress draws.keyPrefix
        durationSec) hC nonce sig hrange
    rw [hmsg'] at hmsg
    cases hmsg
    rw [htask'] at htask
    cases htask
    let rig : PlatformManager :=
      ⟨⟨"", "", []⟩, .available, .new, .new ⟨"", "", ""⟩ 1, true, false, []⟩
    obtain ⟨-, hconsumer, hrig, -, hduration⟩ :=
      (PlatformManager.handleAssignTask_ok_iff keccak256 rfl _ ⟨0, true⟩).1
        (htaken rig ⟨0, true⟩ rfl)
    exact ⟨isSafeIdentifier_rig_iff.1 hconsumer, (address_rig_iff keccak256 haddress).1 hrig,
      hduration, hworker, hfresh.1 (hsign.1 ⟨_, hx⟩).2⟩
  · rintro ⟨hconsumer, hfeed, hduration, hworker, hnonces⟩
    obtain ⟨⟨signed, recent⟩, hx⟩ := hsign.2 ⟨hworker, hfresh.2 hnonces⟩
    obtain ⟨nonce, sig, hnonce, hsig, rfl⟩ := signed_task hx
    obtain ⟨msg, hmsg, htask⟩ := @task_read _ floatRepr signer draws consumerId consumerAddress
      target durationSec (assignTask draws.leaseId consumerId consumerAddress draws.keyPrefix
        durationSec) hC nonce sig hrange
    refine ⟨_, msg, _, publishCommand_ok_iff.2 ⟨hworker, ⟨recent, hx⟩, ?_⟩, hmsg, htask,
      fun m env hm => ?_⟩
    · have hclock := draws.clock_ok
      have hlife := signer.lifetime_valid
      unfold MAX_LIFETIME_SEC at hlife
      unfold MIN_LEASE_DURATION_SEC MAX_LEASE_DURATION_SEC at hduration
      have hlength := address_length_le keccak256 haddress
      have hkey : draws.keyPrefix.length ≤ 16 := length_le_of_hex draws.keyPrefix_ok
      exact wire_task_size (length_le_of_safe draws.leaseId_safe) (length_le_of_safe hconsumer)
        (by omega) (by omega) (length_le_of_safe hworker) (length_le_of_safe hcid) hnonce hsig
        (by omega) (by omega) (by omega)
    · rw [PlatformManager.handleAssignTask_ok_iff keccak256 hm]
      exact ⟨isSafeIdentifier_rig_iff.2 draws.leaseId_safe, isSafeIdentifier_rig_iff.2 hconsumer,
        (address_rig_iff keccak256 haddress).2 hfeed, Or.inr (isHexString_rig draws.keyPrefix_ok),
        hduration⟩

/-- A lease is one the rig takes just when the request and the rented row were fit for it. -/
theorem lease_taken_iff (hC : C.Reader) (h : rentHashpower floatRepr hmacSha256 keccak256 signer env
      draws now d consumerId consumerAddress durationSec workerId =
        .created d' target task published) :
    Taken C keccak256 floatRepr published ↔
      Takeable signer draws d consumerId consumerAddress durationSec workerId := by
  obtain ⟨haddress, ⟨secret, hsecret⟩, ⟨w, hrow⟩, hrange, rfl, rfl⟩ := rentHashpower_created h
  rw [published_taken_iff hC hsecret haddress hrange]
  constructor
  · rintro ⟨hconsumer, hfeed, hduration, hworker, hnonce⟩
    refine ⟨hconsumer, hfeed, hduration, fun row hrow' => ?_, hnonce⟩
    rw [hrow] at hrow'
    cases hrow'
    exact hworker
  · intro ht
    exact ⟨ht.consumer, ht.address, ht.duration, ht.worker _ hrow, ht.nonce⟩

end

/-! ## One rental -/

def sampleDraws : RentDraws where
  leaseUuid := "01234567-89ab-4cde-8f01-23456789abcd"
  keyPrefix := "0011223344556677"
  commandUuid := "0123456789abcdef0123456789abcdef"
  nonce _ := "00112233445566778899aabbccddeeff"
  clock := 1700000000
  leaseUuid_ok := by decide
  keyPrefix_ok := by decide
  commandUuid_ok := by decide
  nonce_ok _ := by decide
  clock_ok := by decide

/-- One rig that is free and one account. -/
def sampleDb : Db where
  accounts := ⟨[("alice", 100)], by simp⟩
  transactions := []
  leases := .empty
  workers := ⟨[("rig-1", newWorker "AVAILABLE" 0)], by simp⟩
  settlements := .empty

def zeroDigest (_ : List UInt8) : Vector UInt8 32 := Vector.replicate 32 0

def zeroAddress : String := "0x0000000000000000000000000000000000000000"

theorem zeroAddress_valid : isValidEthereumAddress zeroDigest zeroAddress = true := by
  decide

theorem sample_created (durationSec : Int)
    (h : i64Min ≤ durationSec ∧ durationSec ≤ i64Max) : ∃ d',
    rentHashpower zeroRepr lengthMac zeroDigest sampleSigner (some "s") sampleDraws 0 sampleDb
      "alice" zeroAddress durationSec none = .created d' "rig-1"
        (assignTask sampleDraws.leaseId "alice" zeroAddress sampleDraws.keyPrefix durationSec)
        (publishCommand zeroRepr lengthMac sampleSigner (some "s") sampleDraws.sources
          (assignTask sampleDraws.leaseId "alice" zeroAddress sampleDraws.keyPrefix durationSec)
          "rig-1") := by
  have hsecret : loadCommandSecret (some "s") = .ok "s" := by decide
  have htarget : sampleDb.rentTarget none = some ("rig-1", newWorker "AVAILABLE" 0) := rfl
  have hrejects : sampleDb.rejects (.createLease sampleDraws.leaseId
      ⟨"rig-1", "alice", durationSec, (newWorker "AVAILABLE" 0).pricePerMin / 60, .active, 0, none,
        0, 0, 0⟩) = false := rfl
  unfold rentHashpower
  rw [zeroAddress_valid, hsecret, htarget]
  dsimp only
  rw [hrejects, if_neg (by simp), if_neg (by simpa using h)]
  exact ⟨_, rfl⟩

/-- A lease of a minute less a second is created, and no rig takes it. -/
theorem short_lease_refused : ∃ d' target task published,
    rentHashpower zeroRepr lengthMac zeroDigest sampleSigner (some "s") sampleDraws 0 sampleDb
      "alice" zeroAddress 59 none = .created d' target task published ∧
    ¬ Taken Codec.sampleTree zeroDigest zeroRepr published := by
  obtain ⟨d', hd⟩ := sample_created 59 (by decide)
  refine ⟨d', _, _, _, hd, fun h => ?_⟩
  have hsecret : loadCommandSecret (some "s") = .ok "s" := by decide
  have hduration := ((published_taken_iff Codec.sampleTree_reader hsecret zeroAddress_valid
    (by decide)).1 h).2.2.1
  exact absurd hduration.1 (by decide)

theorem hour_lease_taken : ∃ d' target task published,
    rentHashpower zeroRepr lengthMac zeroDigest sampleSigner (some "s") sampleDraws 0 sampleDb
      "alice" zeroAddress 3600 none = .created d' target task published ∧
    Taken Codec.sampleTree zeroDigest zeroRepr published := by
  obtain ⟨d', hd⟩ := sample_created 3600 (by decide)
  refine ⟨d', _, _, _, hd, (lease_taken_iff Codec.sampleTree_reader hd).2 ?_⟩
  refine ⟨by decide, by decide, by decide, fun row hrow => ?_, 0, by decide, by decide⟩
  have htarget : sampleDb.rentTarget none = some ("rig-1", newWorker "AVAILABLE" 0) := rfl
  rw [htarget] at hrow
  cases hrow
  decide

end TreeMiner.Server
