import TreeMiner.Core.Address
import TreeMiner.Miner.Find

/-! `FindSink::record` with its hooks: what one call writes and whom it tells, in order,
and what the `Capture` it returns says about that. -/

namespace TreeMiner

namespace FindSink

/-- What is plugged into a sink: the digest check, and which callbacks are installed. -/
structure Hooks where
  verifier : Find → Verification
  notifier : Bool
  observer : Bool

/-- One thing a record does, the log lines apart. -/
inductive Effect
  /-- the journal took the payload, in the row of this id -/
  | journal (id : Int) (payload : FoundPayload)
  | fallback (payload : FoundPayload)
  | fatal (reason : String)
  | counted (key : String) (c : FindClass)
  | woken
  | observed (payload : FoundPayload)
deriving DecidableEq, Repr

def Effect.apply (s : FindSink) : Effect → FindSink
  | .journal _ payload => { s with finds := (s.finds.append payload).2 }
  | .fallback payload => { s with fallback := s.fallback ++ [payload] }
  | .fatal reason => { s with fatal := s.fatal.or (some reason) }
  | .counted key c => s.recordFindClass key c
  | .woken => { s with woken := s.woken + 1 }
  | .observed payload => { s with observed := s.observed ++ [payload] }

def persistEffect (s : FindSink) (payload : FoundPayload) (disk : Disk) : Effect × Capture :=
  match disk.journalError with
  | none =>
    let id := (s.finds.append payload).1
    (.journal id payload, .journaled id)
  | some error =>
    if disk.fallbackTakes then (.fallback payload, .fallback)
    else (.fatal ("journal append and fallback sink both failed: " ++ error), .lost)

/-- The counter, the notifier and the observer, behind a payload that was persisted. -/
def afterPersist (hooks : Hooks) (find : Find) (payload : FoundPayload) (capture : Capture) :
    List Effect :=
  (if capture.isDurable then [.counted find.key (classifyFind find.digest)] else []) ++
  (match capture with
    | .journaled _ => if hooks.notifier then [.woken] else []
    | _ => []) ++
  (if capture.isDurable && hooks.observer then [.observed payload] else [])

def recordEffects (hooks : Hooks) (s : FindSink) (find : Find) (disk : Disk) :
    List Effect × Capture :=
  match s.payloadFor find disk.nowUtc with
  | .error _ => ([], .lost)
  | .ok payload =>
    match hooks.verifier find with
    | .mismatch _ => ([], .rejected)
    | _ =>
      let (stored, capture) := s.persistEffect payload disk
      (stored :: afterPersist hooks find payload capture, capture)

def recordWith (hooks : Hooks) (s : FindSink) (find : Find) (disk : Disk) : FindSink × Capture :=
  let (effects, capture) := recordEffects hooks s find disk
  (effects.foldl Effect.apply s, capture)

/-- In production: the CPU check, and both callbacks. -/
def production (argon2id : Argon2id) : Hooks := ⟨cpuVerify argon2id, true, true⟩

theorem persistEffect_persist (s : FindSink) (payload : FoundPayload) (disk : Disk) :
    ((s.persistEffect payload disk).1.apply s, (s.persistEffect payload disk).2) =
      s.persist payload disk := by
  unfold persistEffect persist
  cases disk.journalError with
  | none => rfl
  | some error => cases disk.fallbackTakes <;> rfl

/-- The effects are those of `record`. -/
theorem recordWith_production (argon2id : Argon2id) (s : FindSink) (find : Find) (disk : Disk) :
    recordWith (production argon2id) s find disk = record argon2id s find disk := by
  have hafter : ∀ payload, (let p := s.persistEffect payload disk;
      ((p.1 :: afterPersist (production argon2id) find payload p.2).foldl Effect.apply s, p.2)) =
      (let p := s.persist payload disk;
        (((p.1.account find p.2).notify p.2).observe payload p.2, p.2)) := by
    intro payload
    dsimp only
    rw [← persistEffect_persist, List.foldl_cons]
    generalize (s.persistEffect payload disk).1.apply s = t
    cases (s.persistEffect payload disk).2 <;> rfl
  unfold recordWith recordEffects record
  cases s.payloadFor find disk.nowUtc with
  | error e => rfl
  | ok payload =>
    dsimp only [production]
    cases cpuVerify argon2id find with
    | mismatch cpu => rfl
    | matched => exact hafter payload
    | unavailable reason => exact hafter payload

/-! ## The discipline -/

/-- What each answer of `record` promises. -/
structure Disciplined (hooks : Hooks) (s : FindSink) (find : Find) (disk : Disk) : Prop where
  journaled : ∀ id, (recordEffects hooks s find disk).2 = .journaled id ↔
    ∃ payload, .journal id payload ∈ (recordEffects hooks s find disk).1
  row : ∀ id, (recordEffects hooks s find disk).2 = .journaled id →
    ∃ r ∈ (recordWith hooks s find disk).1.finds.rows, r.id = id ∧ r.payload.key = find.key
  fallback : (recordEffects hooks s find disk).2 = .fallback ↔
    ∃ payload, .fallback payload ∈ (recordEffects hooks s find disk).1
  /-- a store is handed the payload of this find -/
  payload : ∀ payload, ((∃ id, .journal id payload ∈ (recordEffects hooks s find disk).1) ∨
    .fallback payload ∈ (recordEffects hooks s find disk).1) →
    s.payloadFor find disk.nowUtc = .ok payload
  counted : ∀ key c, .counted key c ∈ (recordEffects hooks s find disk).1 →
    (recordEffects hooks s find disk).2.isDurable = true
  observed : ∀ payload, .observed payload ∈ (recordEffects hooks s find disk).1 →
    (recordEffects hooks s find disk).2.isDurable = true
  woken : .woken ∈ (recordEffects hooks s find disk).1 →
    ∃ id, (recordEffects hooks s find disk).2 = .journaled id
  rejected : (recordEffects hooks s find disk).2 = .rejected →
    (∃ cpu, hooks.verifier find = .mismatch cpu) ∧ (recordEffects hooks s find disk).1 = []
  lost : (recordEffects hooks s find disk).2 = .lost →
    (recordWith hooks s find disk).1.fatal.isSome = true

theorem persistEffect_cases (s : FindSink) (payload : FoundPayload) (disk : Disk) :
    s.persistEffect payload disk = (.journal (s.finds.append payload).1 payload,
      .journaled (s.finds.append payload).1) ∨
    s.persistEffect payload disk = (.fallback payload, .fallback) ∨
    ∃ reason, s.persistEffect payload disk = (.fatal reason, .lost) := by
  unfold persistEffect
  cases disk.journalError with
  | none => exact Or.inl rfl
  | some error =>
    dsimp only
    split_ifs
    · exact Or.inr (Or.inl rfl)
    · exact Or.inr (Or.inr ⟨_, rfl⟩)

section

variable {hooks : Hooks} {find : Find} {payload : FoundPayload} {capture : Capture}

/-- Behind a persisted payload, only the counter and the callbacks that are due. -/
theorem mem_afterPersist {e : Effect} (h : e ∈ afterPersist hooks find payload capture) :
    (capture.isDurable = true ∧ (e = .counted find.key (classifyFind find.digest) ∨
      e = .observed payload)) ∨ (e = .woken ∧ ∃ id, capture = .journaled id) := by
  unfold afterPersist at h
  rw [List.mem_append, List.mem_append] at h
  rcases h with (h | h) | h
  · split_ifs at h with hdurable
    · exact Or.inl ⟨hdurable, Or.inl (List.mem_singleton.1 h)⟩
    · cases h
  · cases capture with
    | journaled id =>
      dsimp only at h
      split_ifs at h
      · exact Or.inr ⟨List.mem_singleton.1 h, id, rfl⟩
      · cases h
    | fallback => cases h
    | rejected => cases h
    | lost => cases h
  · split_ifs at h with hdurable
    · rw [Bool.and_eq_true] at hdurable
      exact Or.inl ⟨hdurable.1, Or.inr (List.mem_singleton.1 h)⟩
    · cases h

/-- No store is written behind a persisted payload. -/
theorem store_notMem_afterPersist :
    (∀ id p, Effect.journal id p ∉ afterPersist hooks find payload capture) ∧
    (∀ p, Effect.fallback p ∉ afterPersist hooks find payload capture) := by
  constructor
  · intro id p h
    rcases mem_afterPersist h with ⟨-, h | h⟩ | ⟨h, -⟩ <;> cases h
  · intro p h
    rcases mem_afterPersist h with ⟨-, h | h⟩ | ⟨h, -⟩ <;> cases h

/-- Neither the journal nor the declaration of the fatal state. -/
theorem afterPersist_foldl (s : FindSink) :
    ((afterPersist hooks find payload capture).foldl Effect.apply s).finds = s.finds ∧
    ((afterPersist hooks find payload capture).foldl Effect.apply s).fatal = s.fatal := by
  unfold afterPersist
  cases hooks.notifier <;> cases hooks.observer <;> cases capture <;> exact ⟨rfl, rfl⟩

/-- What is neither a write nor the fatal state stands behind the persisted payload. -/
theorem behind_persist {s : FindSink} {disk : Disk} {e : Effect}
    (he : e ∈ (s.persistEffect payload disk).1 :: afterPersist hooks find payload capture)
    (hjournal : ∀ id p, e ≠ .journal id p) (hfallback : ∀ p, e ≠ .fallback p)
    (hfatal : ∀ reason, e ≠ .fatal reason) : e ∈ afterPersist hooks find payload capture := by
  refine (List.mem_cons.1 he).resolve_left fun heq => ?_
  rcases s.persistEffect_cases payload disk with h | h | ⟨reason, h⟩ <;> rw [h] at heq
  · exact hjournal _ _ heq
  · exact hfallback _ heq
  · exact hfatal _ heq

/-- Only the persisting itself moves the journal and the fatal state. -/
theorem recordWith_persisted {s : FindSink} {disk : Disk}
    (heffects : recordEffects hooks s find disk =
      ((s.persistEffect payload disk).1 ::
        afterPersist hooks find payload (s.persistEffect payload disk).2,
        (s.persistEffect payload disk).2)) :
    (recordWith hooks s find disk).1.finds = ((s.persistEffect payload disk).1.apply s).finds ∧
    (recordWith hooks s find disk).1.fatal =
      ((s.persistEffect payload disk).1.apply s).fatal := by
  unfold recordWith
  rw [heffects]
  exact afterPersist_foldl _

end

/-- Whatever the disks answer, what is told about a persisted find is what its capture says. -/
theorem disciplined_of_persist {hooks : Hooks} {s : FindSink} {find : Find} {disk : Disk}
    {payload : FoundPayload} (hpayload : s.payloadFor find disk.nowUtc = .ok payload)
    (heffects : recordEffects hooks s find disk =
      ((s.persistEffect payload disk).1 ::
        afterPersist hooks find payload (s.persistEffect payload disk).2,
        (s.persistEffect payload disk).2)) : Disciplined hooks s find disk := by
  obtain ⟨hfinds, hfatal⟩ := recordWith_persisted heffects
  have hstore := @store_notMem_afterPersist hooks find payload (s.persistEffect payload disk).2
  have hcases := s.persistEffect_cases payload disk
  constructor
  case journaled =>
    intro id
    rw [heffects]
    rcases hcases with h | h | ⟨reason, h⟩ <;> rw [h] at hstore ⊢ <;> simp [hstore.1, eq_comm]
  case fallback =>
    rw [heffects]
    rcases hcases with h | h | ⟨reason, h⟩ <;> rw [h] at hstore ⊢ <;> simp [hstore.2]
  case payload =>
    intro p hp
    rw [heffects] at hp
    rcases hcases with h | h | ⟨reason, h⟩ <;> rw [h] at hstore hp <;>
      simp only [List.mem_cons, hstore.1, hstore.2, or_false, Effect.journal.injEq,
        Effect.fallback.injEq, reduceCtorEq, exists_const, false_or] at hp
    · obtain ⟨id, -, rfl⟩ := hp
      exact hpayload
    · rw [hp]
      exact hpayload
  case row =>
    intro id hid
    rw [hfinds]
    rw [heffects] at hid
    rcases hcases with h | h | ⟨reason, h⟩ <;> rw [h] at hid ⊢
    · obtain ⟨r, hr, hrid, hkey⟩ := s.finds.append_row payload
      exact ⟨r, hr, hrid.trans (Capture.journaled.inj hid), hkey.trans (payloadFor_key hpayload)⟩
    · cases hid
    · cases hid
  case counted =>
    intro key c hc
    rw [heffects] at hc ⊢
    rcases mem_afterPersist (behind_persist hc nofun nofun nofun) with ⟨hdurable, -⟩ | ⟨h, -⟩
    · exact hdurable
    · cases h
  case observed =>
    intro p hc
    rw [heffects] at hc ⊢
    rcases mem_afterPersist (behind_persist hc nofun nofun nofun) with ⟨hdurable, -⟩ | ⟨h, -⟩
    · exact hdurable
    · cases h
  case woken =>
    intro hc
    rw [heffects] at hc ⊢
    rcases mem_afterPersist (behind_persist hc nofun nofun nofun) with ⟨-, h | h⟩ | ⟨-, hjournaled⟩
    · cases h
    · cases h
    · exact hjournaled
  case rejected =>
    intro hc
    rw [heffects] at hc
    rcases hcases with h | h | ⟨reason, h⟩ <;> rw [h] at hc <;> cases hc
  case lost =>
    intro hc
    rw [hfatal]
    rw [heffects] at hc
    rcases hcases with h | h | ⟨reason, h⟩ <;> rw [h] at hc ⊢
    · cases hc
    · cases hc
    · change (s.fatal.or (some reason)).isSome = true
      rw [Option.isSome_or]
      exact Bool.or_true _

/-- A find the check contradicts leaves no trace. -/
theorem disciplined_of_mismatch {hooks : Hooks} {s : FindSink} {find : Find} {disk : Disk}
    {cpu : String} (hverdict : hooks.verifier find = .mismatch cpu)
    (heffects : recordEffects hooks s find disk = ([], .rejected)) :
    Disciplined hooks s find disk := by
  constructor <;> rw [heffects]
  case rejected => exact fun _ => ⟨⟨cpu, hverdict⟩, rfl⟩
  all_goals simp

/-- A find that cannot be encoded is lost without a word: the discipline holds if the fatal
state was declared before. -/
theorem disciplined_unencoded {hooks : Hooks} {s : FindSink} {find : Find} {disk : Disk}
    (heffects : recordEffects hooks s find disk = ([], .lost)) :
    Disciplined hooks s find disk ↔ s.fatal.isSome = true := by
  have hwith : (recordWith hooks s find disk).1 = s := by
    unfold recordWith
    rw [heffects]
    rfl
  constructor
  · intro h
    rw [← hwith]
    exact h.lost (by rw [heffects])
  · intro hfatal
    constructor <;> rw [heffects]
    case lost =>
      intro _
      rw [hwith]
      exact hfatal
    all_goals simp

end FindSink

/-- The salt is hex text of even length. -/
def Find.Encodable (find : Find) : Prop :=
  find.hexsalt.utf8ByteSize % 2 = 0 ∧ ∀ c ∈ find.hexsalt.toList, isAsciiHexdigit c = true

theorem Find.encodable_iff (find : Find) :
    (assemblePhc find.memoryCost find.hexsalt find.digest).isOk = true ↔ find.Encodable := by
  unfold assemblePhc hexToBytes Encodable
  split_ifs with hodd
  · simp [Except.map, Except.isOk, Except.toBool, hodd]
  · rw [not_not] at hodd
    cases hd : hexDecode find.hexsalt.toList with
    | some bytes => exact iff_of_true rfl ⟨hodd, isAsciiHexdigit_of_hexDecode hd⟩
    | none =>
      refine iff_of_false (by simp [Except.map, Except.isOk, Except.toBool]) ?_
      rintro ⟨-, hdigits⟩
      have hsize := utf8ByteSize_of_hexdigits hdigits
      obtain ⟨bs, hbs⟩ := hexDecode_isSome (by rw [← hsize]; exact hodd) hdigits
      rw [hd] at hbs
      cases hbs

namespace FindSink

/-- Whatever the check, the disks and the callbacks: a record keeps the discipline exactly if
the find's salt is hex text of even length, or the fatal state was declared before. -/
theorem disciplined_iff (hooks : Hooks) (s : FindSink) (find : Find) (disk : Disk) :
    Disciplined hooks s find disk ↔ find.Encodable ∨ s.fatal.isSome = true := by
  have hok := @payloadFor_isOk s find disk.nowUtc
  rw [← find.encodable_iff, ← hok]
  cases hp : s.payloadFor find disk.nowUtc with
  | error e =>
    rw [disciplined_unencoded (by unfold recordEffects; rw [hp])]
    simp [Except.isOk, Except.toBool]
  | ok payload =>
    refine iff_of_true ?_ (Or.inl rfl)
    cases hv : hooks.verifier find with
    | mismatch cpu => exact disciplined_of_mismatch hv (by unfold recordEffects; rw [hp]; simp [hv])
    | matched => exact disciplined_of_persist hp (by unfold recordEffects; rw [hp]; simp [hv])
    | unavailable reason =>
      exact disciplined_of_persist hp (by unfold recordEffects; rw [hp]; simp [hv])

/-- A find mined for a malformed address, under a healthy journal and fallback file. -/
theorem undisciplined_find :
    ¬ Disciplined ⟨fun _ => .matched, true, true⟩ (fresh "rig-1")
      ⟨"zz", "key", "digest", 8, 1, ⟨0⟩, "GPU"⟩ ⟨none, true, "2026-01-01T00:00:00Z"⟩ := by
  intro h
  exact absurd (h.lost (by decide)) (by decide)

end FindSink

end TreeMiner
