import Mathlib.Data.List.Count
import TreeMiner.Journal.Finds
import TreeMiner.Miner.Encoding

/-! Journal-first capture of one find: the payload, the CPU re-hash, the journal, the
fallback sink, and then the counters, the submitter's wake-up and the observer. -/

namespace TreeMiner

def DEFAULT_HASH_LENGTH : Nat := 64

/-- The 64 bytes of one Argon2id hash. -/
abbrev Digest := Vector UInt8 DEFAULT_HASH_LENGTH

def Digest.text (d : Digest) : String := base64Encode d.toList

/-- The `argon2` crate's hash of a salt, a password and a memory cost. -/
abbrev Argon2id := List UInt8 → List UInt8 → UInt32 → Except String Digest

/-- One find, as the producing loop knows it. -/
structure Find where
  hexsalt : String
  key : String
  digest : String
  memoryCost : UInt32
  attempts : UInt64
  hashesPerSecond : F64
  source : String
deriving DecidableEq, Repr

inductive Capture
  | journaled (id : Int)
  | fallback
  | rejected
  | lost
deriving DecidableEq, Repr

def Capture.isDurable : Capture → Bool
  | .journaled _ | .fallback => true
  | .rejected | .lost => false

inductive Verification
  | matched
  | mismatch (cpuDigest : String)
  | unavailable (reason : String)
deriving DecidableEq, Repr

/-- `0x` or `0X` off the front, and lower case. -/
def normalizeHex (value : String) : String :=
  let body := match value.toList with
    | '0' :: 'x' :: body => body
    | '0' :: 'X' :: body => body
    | body => body
  String.ofList (body.map Char.toLower)

section Verify

variable (argon2id : Argon2id)

def argon2idPhc (saltHex key : String) (difficulty : UInt32) : Except String String :=
  let saltHex := normalizeHex saltHex
  match hexToBytes saltHex with
  | .error e => .error ("salt_hex is not valid hex: " ++ e.text)
  | .ok saltBytes =>
    match argon2id saltBytes key.toUTF8.toList difficulty with
    | .error e => .error e
    | .ok digest =>
      match assemblePhc difficulty saltHex digest.text with
      | .error e => .error ("salt_hex is not valid hex: " ++ e.text)
      | .ok phc => .ok phc

def cpuVerify (find : Find) : Verification :=
  match argon2idPhc argon2id find.hexsalt find.key find.memoryCost with
  | .error e => .unavailable e
  | .ok phc =>
    match phcDigest phc with
    | some digest => if digest = find.digest then .matched else .mismatch digest
    | none => .unavailable "CPU produced an unparseable PHC string"

end Verify

/-- What the disks make of one record, and the time it is stamped with. -/
structure Disk where
  /-- the error of the journal's append, if it fails -/
  journalError : Option String
  fallbackTakes : Bool
  nowUtc : String
deriving DecidableEq, Repr

def Disk.takes (d : Disk) : Bool := d.journalError.isNone || d.fallbackTakes

/-- The sink with what it writes to. -/
structure FindSink where
  machineId : String
  finds : Finds
  /-- the finds whose append to the fallback file returned true -/
  fallback : List FoundPayload
  /-- the lifetime counters `normal_blocks`, `super_blocks` and `xuni_blocks` -/
  blocks : FindClass → UInt64
  fatal : Option String
  /-- calls of the notifier -/
  woken : Nat
  /-- the payloads handed to the observer, in order -/
  observed : List FoundPayload
  /-- the counter increments, in order: the key of the find and the counter -/
  counted : List (String × FindClass)

namespace FindSink

def fresh (machineId : String) : FindSink :=
  ⟨machineId, .empty, [], fun _ => 0, none, 0, [], []⟩

def payloadFor (s : FindSink) (find : Find) (nowUtc : String) : Except String FoundPayload :=
  match assemblePhc find.memoryCost find.hexsalt find.digest with
  | .error e => .error ("cannot encode find: " ++ e.text)
  | .ok hashToVerify => .ok {
      key := find.key
      hashToVerify
      account := "0x" ++ find.hexsalt
      kind := if hasXuniMatch find.digest then .xuni else .xen11
      memoryCost := find.memoryCost
      worker := s.machineId
      attempts := find.attempts
      hashesPerSecond := find.hashesPerSecond
      foundAtUtc := nowUtc }

def recordFindClass (s : FindSink) (key : String) (c : FindClass) : FindSink :=
  { s with
    blocks := Function.update s.blocks c (s.blocks c + 1)
    counted := s.counted ++ [(key, c)] }

/-- Journal, then fallback sink, then fatal. -/
def persist (s : FindSink) (payload : FoundPayload) (disk : Disk) : FindSink × Capture :=
  match disk.journalError with
  | none =>
    let (id, finds) := s.finds.append payload
    ({ s with finds }, .journaled id)
  | some error =>
    if disk.fallbackTakes then ({ s with fallback := s.fallback ++ [payload] }, .fallback)
    else
      let reason := "journal append and fallback sink both failed: " ++ error
      ({ s with fatal := s.fatal.or (some reason) }, .lost)

/-- A find that reached neither disk is not counted. -/
def account (s : FindSink) (find : Find) (capture : Capture) : FindSink :=
  if capture.isDurable then s.recordFindClass find.key (classifyFind find.digest) else s

def notify (s : FindSink) : Capture → FindSink
  | .journaled _ => { s with woken := s.woken + 1 }
  | _ => s

def observe (s : FindSink) (payload : FoundPayload) (capture : Capture) : FindSink :=
  if capture.isDurable then { s with observed := s.observed ++ [payload] } else s

def record (argon2id : Argon2id) (s : FindSink) (find : Find) (disk : Disk) : FindSink × Capture :=
  match s.payloadFor find disk.nowUtc with
  | .error _ => (s, .lost)
  | .ok payload =>
    match cpuVerify argon2id find with
    | .mismatch _ => (s, .rejected)
    | _ =>
      let (s, capture) := s.persist payload disk
      (((s.account find capture).notify capture).observe payload capture, capture)

/-- The key is in a row of the journal or in a line of the fallback file. -/
def Captured (s : FindSink) (key : String) : Prop :=
  (∃ r ∈ s.finds.rows, r.payload.key = key) ∨ ∃ p ∈ s.fallback, p.key = key

instance (s : FindSink) (key : String) : Decidable (s.Captured key) :=
  inferInstanceAs (Decidable (_ ∨ _))

end FindSink

/-- The find can be encoded and the CPU does not contradict it. -/
def Find.accepted (argon2id : Argon2id) (find : Find) : Bool :=
  (assemblePhc find.memoryCost find.hexsalt find.digest).isOk &&
  match cpuVerify argon2id find with
  | .mismatch _ => false
  | _ => true

/-! ## One record -/

namespace FindSink

variable {argon2id : Argon2id} {s : FindSink}

@[simp] theorem payloadFor_key {find : Find} {nowUtc : String} {p : FoundPayload}
    (h : s.payloadFor find nowUtc = .ok p) : p.key = find.key := by
  unfold payloadFor at h
  split at h
  · cases h
  · obtain rfl := Except.ok.inj h
    rfl

theorem payloadFor_isOk (find : Find) (nowUtc : String) :
    (s.payloadFor find nowUtc).isOk =
      (assemblePhc find.memoryCost find.hexsalt find.digest).isOk := by
  unfold payloadFor
  cases assemblePhc find.memoryCost find.hexsalt find.digest <;> rfl

end FindSink

theorem Finds.append_keys (t : Finds) (p : FoundPayload) (key : String) :
    (∃ r ∈ (t.append p).2.rows, r.payload.key = key) ↔
      key = p.key ∨ ∃ r ∈ t.rows, r.payload.key = key := by
  rcases t.append_spec p with ⟨r, hr, hkey, h⟩ | ⟨-, -, hrows⟩
  · rw [h]
    refine ⟨Or.inr, ?_⟩
    rintro (rfl | h)
    · exact ⟨r, hr, hkey⟩
    · exact h
  · rw [hrows]
    constructor
    · rintro ⟨r, hr, hk⟩
      rcases List.mem_append.1 hr with hr | hr
      · exact Or.inr ⟨r, hr, hk⟩
      · rw [List.mem_singleton.1 hr] at hk
        exact Or.inl hk.symm
    · rintro (rfl | ⟨r, hr, hk⟩)
      · exact ⟨_, List.mem_append_right _ (List.mem_singleton.2 rfl), rfl⟩
      · exact ⟨r, List.mem_append_left _ hr, hk⟩

namespace FindSink

variable {argon2id : Argon2id} {s : FindSink}

/-- The keys counted, the keys observed and the keys captured are those of `keys`. -/
structure Logged (s : FindSink) (keys : List String) : Prop where
  counted : s.counted.map Prod.fst = keys
  observed : s.observed.map FoundPayload.key = keys
  captured : ∀ key, s.Captured key ↔ key ∈ keys
  blocks : ∀ c, s.blocks c = UInt64.ofNat (s.counted.countP fun e => e.2 = c)

theorem fresh_logged (machineId : String) : (fresh machineId).Logged [] where
  counted := rfl
  observed := rfl
  captured key := by simp [fresh, Captured, Finds.empty]
  blocks _ := rfl

theorem persist_isDurable (payload : FoundPayload) (disk : Disk) :
    (s.persist payload disk).2.isDurable = disk.takes := by
  unfold persist Disk.takes
  rcases disk.journalError with _ | error
  · rfl
  · by_cases hf : disk.fallbackTakes = true
    · simp [hf, Capture.isDurable]
    · simp [hf, Capture.isDurable]

/-- A disk that takes the find makes its key captured; no other key changes. -/
theorem captured_persist {payload : FoundPayload} {disk : Disk} (h : disk.takes = true)
    (key : String) :
    (s.persist payload disk).1.Captured key ↔ s.Captured key ∨ key = payload.key := by
  unfold persist Captured
  unfold Disk.takes at h
  rcases hj : disk.journalError with _ | error
  · dsimp only
    rw [Finds.append_keys, or_assoc, or_comm]
  · have hf : disk.fallbackTakes = true := by simpa [hj] using h
    simp only [hf, if_true, List.mem_append, List.mem_singleton]
    constructor
    · rintro (h | ⟨p, h | rfl, hk⟩)
      · exact Or.inl (Or.inl h)
      · exact Or.inl (Or.inr ⟨p, h, hk⟩)
      · exact Or.inr hk.symm
    · rintro ((h | ⟨p, h, hk⟩) | rfl)
      · exact Or.inl h
      · exact Or.inr ⟨p, Or.inl h, hk⟩
      · exact Or.inr ⟨payload, Or.inr rfl, rfl⟩

/-- Neither disk taking the find leaves rows and lines alone. -/
theorem persist_lost {payload : FoundPayload} {disk : Disk} (h : disk.takes = false) :
    ∃ fatal, s.persist payload disk = ({ s with fatal }, .lost) := by
  unfold persist
  unfold Disk.takes at h
  rcases hj : disk.journalError with _ | error
  · rw [hj] at h
    cases h
  · have hf : disk.fallbackTakes = false := by simpa [hj] using h
    simp only [hf, Bool.false_eq_true, if_false]
    exact ⟨_, rfl⟩

/-! Persisting writes the disks; what follows it does not. -/

@[simp] theorem persist_counted (payload : FoundPayload) (disk : Disk) :
    (s.persist payload disk).1.counted = s.counted := by
  unfold persist
  split
  · rfl
  · split_ifs <;> rfl

@[simp] theorem persist_blocks (payload : FoundPayload) (disk : Disk) :
    (s.persist payload disk).1.blocks = s.blocks := by
  unfold persist
  split
  · rfl
  · split_ifs <;> rfl

@[simp] theorem persist_observed (payload : FoundPayload) (disk : Disk) :
    (s.persist payload disk).1.observed = s.observed := by
  unfold persist
  split
  · rfl
  · split_ifs <;> rfl

@[simp] theorem notify_counted (c : Capture) : (s.notify c).counted = s.counted := by
  cases c <;> rfl

@[simp] theorem notify_blocks (c : Capture) : (s.notify c).blocks = s.blocks := by
  cases c <;> rfl

@[simp] theorem notify_observed (c : Capture) : (s.notify c).observed = s.observed := by
  cases c <;> rfl

@[simp] theorem notify_captured (c : Capture) (key : String) :
    (s.notify c).Captured key ↔ s.Captured key := by
  cases c <;> rfl

/-- Counting a find, and handing it to the observer, once it is durable. -/
theorem logged_of_durable {keys : List String} {t : FindSink} {find : Find}
    {payload : FoundPayload} {capture : Capture} (h : s.Logged keys)
    (hcounted : t.counted = s.counted) (hblocks : t.blocks = s.blocks)
    (hobserved : t.observed = s.observed)
    (hcaptured : ∀ key, t.Captured key ↔ s.Captured key ∨ key = find.key)
    (hkey : payload.key = find.key) (hdurable : capture.isDurable = true) :
    (((t.account find capture).notify capture).observe payload capture).Logged
      (keys ++ [find.key]) := by
  unfold account observe
  rw [if_pos hdurable, if_pos hdurable]
  constructor
  · simp [recordFindClass, hcounted, h.counted]
  · simp [recordFindClass, hobserved, h.observed, hkey]
  · intro key
    have hsame : (t.recordFindClass find.key (classifyFind find.digest)).Captured key ↔
        t.Captured key := Iff.rfl
    have hnotify := @notify_captured (t.recordFindClass find.key (classifyFind find.digest))
      capture key
    rw [List.mem_append, List.mem_singleton, ← h.captured, ← hcaptured, ← hsame, ← hnotify]
    exact Iff.rfl
  · intro c
    simp only [notify_blocks, notify_counted, recordFindClass, hblocks, hcounted,
      List.countP_append, List.countP_singleton]
    by_cases hc : classifyFind find.digest = c
    · subst hc
      rw [Function.update_self, h.blocks]
      simp
    · rw [Function.update_of_ne (Ne.symm hc), h.blocks]
      simp [hc]

/-- What follows the re-hash: without a disk the find is neither counted nor observed. -/
theorem persist_logged {keys : List String} (h : s.Logged keys) {find : Find}
    {payload : FoundPayload} (hkey : payload.key = find.key) (disk : Disk) :
    let t := s.persist payload disk
    (((t.1.account find t.2).notify t.2).observe payload t.2).Logged
      (keys ++ if disk.takes then [find.key] else []) := by
  intro t
  by_cases htakes : disk.takes = true
  · rw [if_pos htakes]
    refine logged_of_durable h (persist_counted _ _) (persist_blocks _ _) (persist_observed _ _)
      (fun key => ?_) hkey ?_
    · rw [← hkey]
      exact captured_persist htakes key
    · rw [persist_isDurable]
      exact htakes
  · obtain ⟨fatal, ht⟩ := @persist_lost s payload _ (by simpa using htakes)
    have hlost : t = ({ s with fatal }, .lost) := ht
    rw [if_neg htakes, List.append_nil, hlost]
    exact ⟨h.counted, h.observed, h.captured, h.blocks⟩

/-- A record counts, observes and captures an accepted find that a disk takes, and
does none of these to another. -/
theorem record_logged {keys : List String} (h : s.Logged keys) (find : Find) (disk : Disk) :
    (s.record argon2id find disk).1.Logged
      (keys ++ if find.accepted argon2id && disk.takes then [find.key] else []) := by
  have hok := @payloadFor_isOk s find disk.nowUtc
  unfold record Find.accepted
  rw [← hok]
  rcases hp : s.payloadFor find disk.nowUtc with e | payload
  · simpa [Except.isOk, Except.toBool] using h
  · have hkey := payloadFor_key hp
    rcases hv : cpuVerify argon2id find with _ | cpu | reason
    · exact persist_logged h hkey disk
    · simpa using h
    · exact persist_logged h hkey disk

end FindSink

end TreeMiner
