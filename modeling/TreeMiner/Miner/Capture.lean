import Mathlib.Data.List.Nodup
import TreeMiner.Miner.Find

/-! Batches of the GPU units and the CPU workers, their matches, and what the sink makes
of them: how often the key of a find is counted and reported. -/

namespace TreeMiner

def HASH_API_KEY_LENGTH : Nat := 64

def MAX_TARGET_PATTERN_LENGTH : Nat := 128

def MAX_CPU_BATCH_SIZE : Nat := 10000

def MIN_ARGON2_CPU_DIFFICULTY : UInt32 := 8

/-- One password of a batch, and what the disks will make of its two possible matches. -/
structure Attempt where
  key : String
  onTarget : Disk
  onXuni : Disk

/-- A reported match, with what the disks will make of its record. -/
structure HashMatch where
  key : String
  hash : String
  matchedPattern : String
  attemptIndex : Nat
  isSuperblock : Bool
  disk : Disk

/-! ## The GPU batch -/

structure GpuBatch where
  unit : Nat
  /-- the unit was built anew for this batch -/
  rebuilt : Bool
  saltHex : String
  difficulty : UInt32
  targetPattern : String
  allowXuni : Bool
  hashrate : F64
  /-- the launch and the read-back succeed -/
  deviceOk : Bool
  /-- the passwords with the digests of the blocks the device returns -/
  attempts : List (Attempt × Digest)

namespace GpuBatch

variable (b : GpuBatch)

def hitsTarget (hash : String) : Bool :=
  !b.targetPattern.isEmpty && containsText hash b.targetPattern

def hitsXuni (hash : String) : Bool := b.allowXuni && hasXuniMatch hash

/-- A digest can match both patterns, and is then reported twice. -/
def appendMatches (a : Attempt) (hash : String) (attemptIndex : Nat) : List HashMatch :=
  (if b.hitsTarget hash then
    [⟨a.key, hash, b.targetPattern, attemptIndex, isSuperblockHash hash, a.onTarget⟩] else []) ++
  if b.hitsXuni hash then [⟨a.key, hash, "XUNI", attemptIndex, false, a.onXuni⟩] else []

def finalizeRange : Nat → List (Attempt × Digest) → List HashMatch
  | _, [] => []
  | index, (a, digest) :: rest =>
    b.appendMatches a digest.text index ++ finalizeRange (index + 1) rest

/-- The request is one the backend hashes. -/
def valid : Bool :=
  !b.attempts.isEmpty && b.difficulty != 0 &&
  (match hexToBytes b.saltHex with
    | .ok salt => !salt.isEmpty
    | .error _ => false) && b.deviceOk

def runBatch : Option (List HashMatch) :=
  if b.valid then some (b.finalizeRange 0 b.attempts) else none

def find (hit : HashMatch) (attempts : UInt64) : Find where
  hexsalt := b.saltHex
  key := hit.key
  digest := hit.hash
  memoryCost := b.difficulty
  attempts
  hashesPerSecond := b.hashrate
  source := "GPU"

end GpuBatch

/-! ## The CPU batch -/

structure CpuBatch where
  worker : Nat
  saltHex : String
  keyPrefix : String
  difficulty : UInt32
  targetPattern : String
  allowXuni : Bool
  hashrate : F64
  attempts : List Attempt

/-- A reported match is only real if the digest carries the pattern. -/
def digestMatches (targetPattern : String) (allowXuni : Bool) (matchedPattern digest : String) :
    Bool :=
  if matchedPattern = targetPattern then containsText digest targetPattern
  else if matchedPattern = "XUNI" then allowXuni && hasXuniMatch digest
  else false

namespace CpuBatch

variable (argon2id : Argon2id) (b : CpuBatch)

def hitsTarget (hash : String) : Bool := containsText hash b.targetPattern

def hitsXuni (hash : String) : Bool := b.allowXuni && hasXuniMatch hash

def appendMatches (a : Attempt) (hash : String) (attemptIndex : Nat) : List HashMatch :=
  (if b.hitsTarget hash then
    [⟨a.key, hash, b.targetPattern, attemptIndex, isSuperblockHash hash, a.onTarget⟩] else []) ++
  if b.hitsXuni hash then [⟨a.key, hash, "XUNI", attemptIndex, false, a.onXuni⟩] else []

def isHexString (value : String) : Bool := value.toList.all isAsciiHexdigit

/-- `validate_request` on the fields the worker sets, and the floor of the CPU backend. -/
def valid : Bool :=
  let salt := normalizeHex b.saltHex
  let keyPrefix := normalizeHex b.keyPrefix
  !salt.isEmpty && salt.utf8ByteSize % 2 == 0 && decide (16 ≤ salt.utf8ByteSize) &&
  isHexString salt &&
  (keyPrefix.isEmpty ||
    (decide (keyPrefix.utf8ByteSize ≤ HASH_API_KEY_LENGTH) && isHexString keyPrefix)) &&
  !b.targetPattern.isEmpty &&
  decide (b.targetPattern.utf8ByteSize ≤ MAX_TARGET_PATTERN_LENGTH) &&
  !b.attempts.isEmpty && decide (b.attempts.length ≤ MAX_CPU_BATCH_SIZE) &&
  decide (MIN_ARGON2_CPU_DIFFICULTY ≤ b.difficulty)

/-- The digest of one attempt. -/
def digest (a : Attempt) : Except String Digest :=
  match hexToBytes (normalizeHex b.saltHex) with
  | .error e => .error ("salt_hex is not valid hex: " ++ e.text)
  | .ok salt => argon2id salt a.key.toUTF8.toList b.difficulty

/-- The first error ends the batch without matches. -/
def hashLoop : Nat → List Attempt → Except String (List HashMatch)
  | _, [] => .ok []
  | index, a :: rest =>
    match b.digest argon2id a with
    | .error e => .error e
    | .ok digest =>
      match assemblePhc b.difficulty (normalizeHex b.saltHex) digest.text with
      | .error e => .error ("salt_hex is not valid hex: " ++ e.text)
      | .ok hash =>
        match hashLoop (index + 1) rest with
        | .error e => .error e
        | .ok hits => .ok (b.appendMatches a hash index ++ hits)

def runBatch : Option (List HashMatch) :=
  if b.valid then (b.hashLoop argon2id 0 b.attempts).toOption else none

def find (key digest : String) (attempts : UInt64) : Find where
  hexsalt := b.saltHex
  key
  digest
  memoryCost := b.difficulty
  attempts
  hashesPerSecond := b.hashrate
  source := "CPU"

end CpuBatch

/-! ## Handing the matches over -/

/-- A loop over the matches of a batch: the sink, the attempts since the last find, and
the attempt that comes next. -/
structure MatchLoop where
  sink : FindSink
  attempts : UInt64
  next : Nat

namespace MatchLoop

variable (argon2id : Argon2id)

def advance (l : MatchLoop) (attemptIndex : Nat) : MatchLoop :=
  if l.next ≤ attemptIndex then
    { l with
      attempts := l.attempts + UInt64.ofNat (attemptIndex - l.next + 1)
      next := attemptIndex + 1 }
  else l

def record (l : MatchLoop) (find : Find) (disk : Disk) : MatchLoop :=
  { l with sink := (l.sink.record argon2id find disk).1, attempts := 0 }

def submitGpu (b : GpuBatch) (l : MatchLoop) (hit : HashMatch) : MatchLoop :=
  let l := l.advance hit.attemptIndex
  l.record argon2id (b.find hit l.attempts) hit.disk

/-- The pattern is checked again on the digest alone. -/
def submitCpu (b : CpuBatch) (l : MatchLoop) (hit : HashMatch) : MatchLoop :=
  let l := l.advance hit.attemptIndex
  match phcDigest hit.hash with
  | none => l
  | some digest =>
    if digestMatches b.targetPattern b.allowXuni hit.matchedPattern digest then
      l.record argon2id (b.find hit.key digest l.attempts) hit.disk
    else l

def finish (l : MatchLoop) (attempts : Nat) : MatchLoop :=
  if l.next ≤ attempts then
    { l with attempts := l.attempts + UInt64.ofNat (attempts - l.next) }
  else l

end MatchLoop

/-- The sink and the attempts each producer carries across its batches. -/
structure Producers where
  sink : FindSink
  unitAttempts : Nat → UInt64
  workerAttempts : Nat → UInt64

inductive MineEvent
  | gpu (b : GpuBatch)
  | cpu (b : CpuBatch)

namespace Producers

variable (argon2id : Argon2id)

def fresh (machineId : String) : Producers := ⟨.fresh machineId, fun _ => 0, fun _ => 0⟩

def step (s : Producers) : MineEvent → Producers
  | .gpu b =>
    let carried := if b.rebuilt then 0 else s.unitAttempts b.unit
    match b.runBatch with
    | none => s
    | some hits =>
      let l := (hits.foldl (MatchLoop.submitGpu argon2id b) ⟨s.sink, carried, 0⟩).finish
        b.attempts.length
      { s with
        sink := l.sink
        unitAttempts := Function.update s.unitAttempts b.unit l.attempts }
  | .cpu b =>
    match b.runBatch argon2id with
    | none => s
    | some hits =>
      let l := (hits.foldl (MatchLoop.submitCpu argon2id b)
        ⟨s.sink, s.workerAttempts b.worker, 0⟩).finish b.attempts.length
      { s with
        sink := l.sink
        workerAttempts := Function.update s.workerAttempts b.worker l.attempts }

def run (machineId : String) (events : List MineEvent) : Producers :=
  events.foldl (step argon2id) (fresh machineId)

end Producers

/-- Every key is counted once and reported once if it is captured, and not at all if not. -/
def FindSink.Once (s : FindSink) : Prop :=
  ∀ key, (s.counted.map Prod.fst).count key = (if s.Captured key then 1 else 0) ∧
    (s.observed.map FoundPayload.key).count key = if s.Captured key then 1 else 0

/-! ## What of an attempt is stored -/

/-- An attempt, with the patterns under which it is a find that is accepted and stored. -/
structure Draw where
  key : String
  byTarget : Bool
  byXuni : Bool
deriving DecidableEq, Repr

def Draw.stored (d : Draw) : Bool := d.byTarget || d.byXuni

def Draw.twice (d : Draw) : Bool := d.byTarget && d.byXuni

def Draw.keys (d : Draw) : List String :=
  (if d.byTarget then [d.key] else []) ++ if d.byXuni then [d.key] else []

section Draws

variable (argon2id : Argon2id)

def GpuBatch.draw (b : GpuBatch) (a : Attempt) (digest : Digest) : Draw :=
  let find : Find := ⟨b.saltHex, a.key, digest.text, b.difficulty, 0, b.hashrate, "GPU"⟩
  ⟨a.key,
    b.hitsTarget digest.text && find.accepted argon2id && a.onTarget.takes,
    b.hitsXuni digest.text && find.accepted argon2id && a.onXuni.takes⟩

def GpuBatch.draws (b : GpuBatch) : List Draw :=
  if b.valid then b.attempts.map fun p => b.draw argon2id p.1 p.2 else []

/-- The pattern has to be in the PHC text, and again in the digest. -/
def CpuBatch.draw (b : CpuBatch) (a : Attempt) (digest phc : String) : Draw :=
  let find := b.find a.key digest 0
  ⟨a.key,
    b.hitsTarget phc && digestMatches b.targetPattern b.allowXuni b.targetPattern digest &&
      find.accepted argon2id && a.onTarget.takes,
    b.hitsXuni phc && digestMatches b.targetPattern b.allowXuni "XUNI" digest &&
      find.accepted argon2id && a.onXuni.takes⟩

/-- The digest and the PHC text of an attempt. -/
def CpuBatch.hashed (b : CpuBatch) (a : Attempt) : Option (String × String) :=
  (b.digest argon2id a).toOption.bind fun digest =>
    (assemblePhc b.difficulty (normalizeHex b.saltHex) digest.text).toOption.map fun phc =>
      (digest.text, phc)

def CpuBatch.draws (b : CpuBatch) : List Draw :=
  if b.valid && b.attempts.all fun a => (b.hashed argon2id a).isSome then
    b.attempts.filterMap fun a => (b.hashed argon2id a).map fun h => b.draw argon2id a h.1 h.2
  else []

def MineEvent.draws : MineEvent → List Draw
  | .gpu b => b.draws argon2id
  | .cpu b => b.draws argon2id

end Draws

/-! ## The keys a batch stores -/

section Stored

variable {argon2id : Argon2id}

theorem MatchLoop.advance_sink (l : MatchLoop) (i : Nat) : (l.advance i).sink = l.sink := by
  unfold advance
  split_ifs <;> rfl

theorem MatchLoop.finish_sink (l : MatchLoop) (n : Nat) : (l.finish n).sink = l.sink := by
  unfold finish
  split_ifs <;> rfl

/-- What each match adds, the whole loop adds. -/
theorem logged_foldl {α : Type*} {f : MatchLoop → α → MatchLoop} {stored : α → List String}
    (hstep : ∀ (l : MatchLoop) (a : α) (keys : List String), l.sink.Logged keys →
      (f l a).sink.Logged (keys ++ stored a))
    (as : List α) {l : MatchLoop} {keys : List String} (h : l.sink.Logged keys) :
    (as.foldl f l).sink.Logged (keys ++ as.flatMap stored) := by
  induction as generalizing l keys with
  | nil => simpa using h
  | cons a as ih =>
    rw [List.foldl_cons, List.flatMap_cons, ← List.append_assoc]
    exact ih (hstep l a keys h)

def GpuBatch.stored (argon2id : Argon2id) (b : GpuBatch) (hit : HashMatch) : List String :=
  if (b.find hit 0).accepted argon2id && hit.disk.takes then [hit.key] else []

theorem submitGpu_logged (b : GpuBatch) (l : MatchLoop) (hit : HashMatch) (keys : List String)
    (h : l.sink.Logged keys) :
    (l.submitGpu argon2id b hit).sink.Logged (keys ++ b.stored argon2id hit) := by
  have hadv : (l.advance hit.attemptIndex).sink.Logged keys := by
    rw [MatchLoop.advance_sink]
    exact h
  exact FindSink.record_logged hadv _ hit.disk

def CpuBatch.stored (argon2id : Argon2id) (b : CpuBatch) (hit : HashMatch) : List String :=
  match phcDigest hit.hash with
  | none => []
  | some digest =>
    if digestMatches b.targetPattern b.allowXuni hit.matchedPattern digest &&
        (b.find hit.key digest 0).accepted argon2id && hit.disk.takes then [hit.key] else []

theorem submitCpu_logged (b : CpuBatch) (l : MatchLoop) (hit : HashMatch) (keys : List String)
    (h : l.sink.Logged keys) :
    (l.submitCpu argon2id b hit).sink.Logged (keys ++ b.stored argon2id hit) := by
  have hadv : (l.advance hit.attemptIndex).sink.Logged keys := by
    rw [MatchLoop.advance_sink]
    exact h
  unfold MatchLoop.submitCpu CpuBatch.stored
  rcases phcDigest hit.hash with _ | digest
  · simpa using hadv
  · dsimp only
    by_cases hd : digestMatches b.targetPattern b.allowXuni hit.matchedPattern digest = true
    · rw [if_pos hd, hd, Bool.true_and]
      exact FindSink.record_logged hadv _ hit.disk
    · rw [if_neg hd, Bool.eq_false_iff.2 hd]
      simpa using hadv

theorem GpuBatch.stored_finalizeRange (b : GpuBatch) (index : Nat)
    (attempts : List (Attempt × Digest)) :
    (b.finalizeRange index attempts).flatMap (b.stored argon2id) =
      (attempts.map fun p => b.draw argon2id p.1 p.2).flatMap Draw.keys := by
  induction attempts generalizing index with
  | nil => rfl
  | cons p rest ih =>
    obtain ⟨a, digest⟩ := p
    rw [finalizeRange, List.flatMap_append, ih, List.map_cons, List.flatMap_cons]
    congr 1
    unfold appendMatches Draw.keys draw stored find
    cases b.hitsTarget digest.text <;> cases b.hitsXuni digest.text <;> simp

theorem Digest.toList_ne_nil (d : Digest) : d.toList ≠ [] := by
  intro h
  have hlen : d.toList.length = 64 := d.length_toList
  rw [h] at hlen
  cases hlen

/-- What is stored of one attempt with this digest. -/
theorem CpuBatch.stored_appendMatches {b : CpuBatch} {a : Attempt} {digest : Digest}
    {phc : String}
    (hphc : assemblePhc b.difficulty (normalizeHex b.saltHex) digest.text = .ok phc)
    (index : Nat) :
    (b.appendMatches a phc index).flatMap (b.stored argon2id) =
      (b.draw argon2id a digest.text phc).keys := by
  have hdigest : phcDigest phc = some digest.text :=
    phcDigest_of_assemblePhc digest.toList_ne_nil hphc
  unfold appendMatches Draw.keys draw stored
  cases b.hitsTarget phc <;> cases b.hitsXuni phc <;> simp [hdigest]

theorem CpuBatch.stored_hashLoop (b : CpuBatch) (index : Nat) (attempts : List Attempt) :
    (∃ e, b.hashLoop argon2id index attempts = .error e ∧
      attempts.all (fun a => (b.hashed argon2id a).isSome) = false) ∨
    ∃ hits, b.hashLoop argon2id index attempts = .ok hits ∧
      attempts.all (fun a => (b.hashed argon2id a).isSome) = true ∧
      hits.flatMap (b.stored argon2id) =
        (attempts.filterMap fun a => (b.hashed argon2id a).map fun h =>
          b.draw argon2id a h.1 h.2).flatMap Draw.keys := by
  induction attempts generalizing index with
  | nil => exact Or.inr ⟨[], rfl, rfl, rfl⟩
  | cons a rest ih =>
    rw [hashLoop, List.all_cons]
    rcases hd : b.digest argon2id a with e | digest
    · have hnone : b.hashed argon2id a = none := by simp [hashed, hd, Except.toOption]
      exact Or.inl ⟨e, rfl, by simp [hnone]⟩
    · dsimp only
      rcases hp : assemblePhc b.difficulty (normalizeHex b.saltHex) digest.text with e | phc
      · have hnone : b.hashed argon2id a = none := by simp [hashed, hd, hp, Except.toOption]
        exact Or.inl ⟨_, rfl, by simp [hnone]⟩
      · have hsome : b.hashed argon2id a = some (digest.text, phc) := by
          simp [hashed, hd, hp, Except.toOption]
        dsimp only
        rcases ih (index + 1) with ⟨e, he, hall⟩ | ⟨hits, he, hall, hstored⟩
        · exact Or.inl ⟨e, by rw [he], by rw [hall, Bool.and_false]⟩
        · refine Or.inr ⟨b.appendMatches a phc index ++ hits, by rw [he], ?_, ?_⟩
          · rw [hall, hsome]
            rfl
          · rw [List.flatMap_append, stored_appendMatches hp, hstored, List.filterMap_cons, hsome]
            rfl

end Stored

/-! ## Runs -/

section Runs

variable {argon2id : Argon2id}

theorem Producers.step_logged {s : Producers} {keys : List String} (h : s.sink.Logged keys)
    (e : MineEvent) :
    (s.step argon2id e).sink.Logged (keys ++ (e.draws argon2id).flatMap Draw.keys) := by
  cases e with
  | gpu b =>
    unfold step MineEvent.draws GpuBatch.runBatch GpuBatch.draws
    by_cases hv : b.valid = true
    · simp only [if_pos hv]
      rw [← GpuBatch.stored_finalizeRange b 0, MatchLoop.finish_sink]
      exact logged_foldl (submitGpu_logged b) _ h
    · simpa [hv] using h
  | cpu b =>
    unfold step MineEvent.draws CpuBatch.runBatch CpuBatch.draws
    by_cases hv : b.valid = true
    · rcases @CpuBatch.stored_hashLoop argon2id b 0 b.attempts with
        ⟨e, he, hall⟩ | ⟨hits, he, hall, hstored⟩
      · simpa [hv, he, hall, Except.toOption] using h
      · simp only [hv, he, hall, if_true, Bool.and_self, Except.toOption]
        rw [← hstored, MatchLoop.finish_sink]
        exact logged_foldl (submitCpu_logged b) _ h
    · simpa [hv] using h

theorem Producers.foldl_logged (events : List MineEvent) {s : Producers} {keys : List String}
    (h : s.sink.Logged keys) :
    (events.foldl (step argon2id) s).sink.Logged
      (keys ++ (events.flatMap (MineEvent.draws argon2id)).flatMap Draw.keys) := by
  induction events generalizing s keys with
  | nil => simpa using h
  | cons e events ih =>
    rw [List.foldl_cons, List.flatMap_cons, List.flatMap_append, ← List.append_assoc]
    exact ih (s.step_logged h e)

theorem Producers.run_logged (machineId : String) (events : List MineEvent) :
    (run argon2id machineId events).sink.Logged
      ((events.flatMap (MineEvent.draws argon2id)).flatMap Draw.keys) :=
  @foldl_logged argon2id events (fresh machineId) [] (FindSink.fresh_logged machineId)

/-- The lifetime counters count the increments. -/
theorem Producers.run_blocks (machineId : String) (events : List MineEvent) (c : FindClass) :
    (run argon2id machineId events).sink.blocks c =
      UInt64.ofNat ((run argon2id machineId events).sink.counted.countP fun e => e.2 = c) :=
  (run_logged machineId events).blocks c

theorem FindSink.Logged.once_iff {s : FindSink} {keys : List String} (h : s.Logged keys) :
    s.Once ↔ keys.Nodup := by
  unfold Once
  rw [h.counted, h.observed, List.nodup_iff_count_le_one]
  constructor
  · intro honce key
    rw [(honce key).1]
    split_ifs <;> omega
  · intro hle key
    rw [and_self]
    by_cases hkey : key ∈ keys
    · rw [if_pos ((h.captured key).2 hkey)]
      have := List.count_pos_iff.2 hkey
      have := hle key
      omega
    · rw [if_neg fun hc => hkey ((h.captured key).1 hc)]
      exact List.count_eq_zero.2 hkey

theorem Draw.mem_keys {d : Draw} {key : String} :
    key ∈ d.keys ↔ d.stored = true ∧ key = d.key := by
  unfold keys stored
  cases d.byTarget <;> cases d.byXuni <;> simp

/-- The keys that are stored repeat when one attempt is stored twice, or two attempts with
one key are. -/
theorem nodup_keys_iff (draws : List Draw) :
    (draws.flatMap Draw.keys).Nodup ↔
      (∀ d ∈ draws, d.twice = false) ∧ ((draws.filter Draw.stored).map Draw.key).Nodup := by
  induction draws with
  | nil => simp
  | cons d draws ih =>
    have hmem : d.key ∈ draws.flatMap Draw.keys ↔
        d.key ∈ (draws.filter Draw.stored).map Draw.key := by
      simp only [List.mem_flatMap, Draw.mem_keys, List.mem_map, List.mem_filter]
      grind
    rw [List.flatMap_cons, List.nodup_append, ih, List.forall_mem_cons]
    obtain ⟨key, byTarget, byXuni⟩ := d
    cases byTarget <;> cases byXuni <;> grind [Draw.keys, Draw.twice, Draw.stored]

/-- No attempt is stored under both patterns, and no two attempts with one key are stored. -/
def Single (draws : List Draw) : Prop :=
  (∀ d ∈ draws, d.twice = false) ∧ ((draws.filter Draw.stored).map Draw.key).Nodup

theorem counted_once_iff (machineId : String) (events : List MineEvent) :
    (Producers.run argon2id machineId events).sink.Once ↔
      Single (events.flatMap (MineEvent.draws argon2id)) := by
  rw [(Producers.run_logged machineId events).once_iff]
  exact nodup_keys_iff _

end Runs

/-- `XEN11AAA` and `XUNI0AAA` in one digest. -/
def bothDigest : Digest :=
  ⟨([92, 67, 117, 212, 0, 0, 93, 67, 72, 208, 0, 0] ++ List.replicate 52 (0 : UInt8)).toArray, rfl⟩

def workingDisk : Disk := ⟨none, true, "2026-01-01T00:00:00Z"⟩

def bothBatch : GpuBatch where
  unit := 0
  rebuilt := true
  saltHex := "e4bb184781bbc9c7004e8dafd4a9b49d203bc9bc"
  difficulty := 100
  targetPattern := "XEN11"
  allowXuni := true
  hashrate := ⟨0⟩
  deviceOk := true
  attempts := [(⟨"52a1363269", workingDisk, workingDisk⟩, bothDigest)]

/-- One digest with both patterns: one row, two counts, two reports. -/
theorem one_row_counted_twice :
    let s := (Producers.run (fun _ _ _ => .ok bothDigest) "worker-1" [.gpu bothBatch]).sink
    ¬ s.Once ∧ s.Captured "52a1363269" ∧
      (s.counted.map Prod.fst).count "52a1363269" = 2 ∧
      (s.observed.map FoundPayload.key).count "52a1363269" = 2 := by
  intro s
  have hdraws : [MineEvent.gpu bothBatch].flatMap (MineEvent.draws fun _ _ _ => .ok bothDigest) =
      [⟨"52a1363269", true, true⟩] := by decide
  have hlog := @Producers.run_logged (fun _ _ _ => .ok bothDigest) "worker-1" [.gpu bothBatch]
  rw [hdraws] at hlog
  refine ⟨?_, (hlog.captured _).2 (by decide), ?_, ?_⟩
  · rw [hlog.once_iff]
    decide
  · rw [hlog.counted]
    decide
  · rw [hlog.observed]
    decide

end TreeMiner
