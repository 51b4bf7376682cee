import Mathlib.Data.Finset.Card
import TreeMiner.Core.Address
import TreeMiner.Journal.Finds
import TreeMiner.Lib.Run
import TreeMiner.Server.Signer
import TreeMiner.Server.Store

/-! The block watcher: what it records of a worker's block message and when it counts the block
for a lease. -/

namespace TreeMiner.Server

open Lib

def PLATFORM_PREFIX_LENGTH : Nat := 16

/-- The columns of `leases` the watcher and the rental write. Its prefix is that of
`secrets.token_hex(8)`. -/
structure WatchedLease where
  workerId : String
  keyPrefix : String
  state : LeaseState
  blocksFound : Nat
  hex : isHexString keyPrefix PLATFORM_PREFIX_LENGTH PLATFORM_PREFIX_LENGTH = true
deriving DecidableEq

/-- A row of `blocks`. -/
structure BlockRow where
  leaseId : String
  workerId : PyValue
  blockHash : PyValue
  key : PyValue
  account : PyValue
  attempts : PyValue
  hashrate : PyValue
  prefixValid : Bool
  chainVerified : Bool
  chainBlockId : Option Nat
  createdAt : ℚ

/-- A block of the chain simulator. -/
structure ChainBlock where
  blockId : Nat
  key : String
deriving DecidableEq, Repr

/-- `str.lower`, as far as a text of hex digits can equal its result. -/
def lowerHex (cs : List Char) : List Char := cs.map toAsciiLowercase

/-- The newest blocks whose key starts so. -/
def getBlocksByKeyPrefix (chain : List ChainBlock) (start : List Char) (limit : Nat) :
    List ChainBlock :=
  (chain.reverse.filter fun b => (lowerHex start).isPrefixOf (lowerHex b.key.toList)).take limit

/-! ## Python values -/

/-- Truth of a value. -/
def truthy : PyValue → Bool
  | .null => false
  | .bool b => b
  | .number (.int n) => n ≠ 0
  | .number (.float x) => x.bits &&& 0x7fffffffffffffff ≠ 0
  | .string s => s ≠ ""
  | .array items => !items.isEmpty
  | .object members => !members.isEmpty

/-- SQLite takes the value for a `NOT NULL` column. -/
def storable : PyValue → Bool
  | .null => false
  | .bool _ => true
  | .number (.int n) => decide (i64Min ≤ n) && decide (n ≤ i64Max)
  | .number (.float x) => !x.isNaN
  | .string _ => true
  | .array _ => false
  | .object _ => false

/-- `msg.get(name, default)` -/
def msgGet (msg : List (String × PyValue)) (name : String) (default : PyValue) : PyValue :=
  (msg.lookup name).getD default

/-! ## The watcher -/

structure BlockWatcher where
  leases : Table String WatchedLease
  blocks : List BlockRow
  /-- the worker ids given to `increment_self_blocks` -/
  selfMined : List PyValue

/-- What the checks of a message come to, with the lease and the key it names. -/
structure Judged where
  leaseId : String
  lease : WatchedLease
  key : String
  prefixValid : Bool
  chainVerified : Bool
  chainBlockId : Option Nat

namespace BlockWatcher

/-- `_blocks.create`; none where the statement raises. -/
def create (s : BlockWatcher) (row : BlockRow) : Option BlockWatcher :=
  if [row.workerId, row.blockHash, row.key, row.account, row.attempts, row.hashrate].all storable
  then some { s with blocks := s.blocks ++ [row] } else none

/-- The row of a message. -/
def row (msg : List (String × PyValue)) (workerIdFromTopic leaseId : String)
    (prefixValid chainVerified : Bool) (chainBlockId : Option Nat) (now : ℚ) : BlockRow where
  leaseId := leaseId
  workerId := msgGet msg "worker_id" (.string workerIdFromTopic)
  blockHash := msgGet msg "hash" (.string "")
  key := msgGet msg "key" (.string "")
  account := msgGet msg "account" (.string "")
  attempts := msgGet msg "attempts" (.number (.int 0))
  hashrate := msgGet msg "hashrate" (.string "0.0")
  prefixValid := prefixValid
  chainVerified := chainVerified
  chainBlockId := chainBlockId
  createdAt := now

def handleSelfMinedBlock (s : BlockWatcher) (msg : List (String × PyValue))
    (workerIdFromTopic : String) (now : ℚ) : BlockWatcher :=
  let row := row msg workerIdFromTopic "" true true none now
  match s.create row with
  | none => s
  | some s => { s with selfMined := s.selfMined ++ [row.workerId] }

/-- The lease and the checks; none where the lease is unknown or the checks raise, as they do on
a key that is no string. No lease id is the text of a number. -/
def judge (s : BlockWatcher) (chain : Option (List ChainBlock)) (msg : List (String × PyValue)) :
    Option Judged :=
  match msgGet msg "lease_id" (.string "") with
  | .string leaseId =>
    match s.leases.get leaseId, msgGet msg "key" (.string "") with
    | some lease, .string key =>
      let start := key.toList.take PLATFORM_PREFIX_LENGTH
      let found := chain.bind fun blocks =>
        (getBlocksByKeyPrefix blocks start 100).find? fun b => b.key = key
      some { leaseId, lease, key
             prefixValid := lowerHex start = lowerHex lease.keyPrefix.toList
             chainVerified := chain.isNone || found.isSome
             chainBlockId := found.map ChainBlock.blockId }
    | _, _ => none
  | _ => none

def incrementBlocks (s : BlockWatcher) (leaseId : String) : BlockWatcher :=
  { s with leases := s.leases.modify leaseId fun l => { l with blocksFound := l.blocksFound + 1 } }

/-- What a `block_found` message does; `chain` is none where no simulator is embedded. -/
def handleBlockFound (s : BlockWatcher) (chain : Option (List ChainBlock))
    (msg : List (String × PyValue)) (workerIdFromTopic : String) (now : ℚ) : BlockWatcher :=
  if !truthy (msgGet msg "lease_id" (.string "")) then
    s.handleSelfMinedBlock msg workerIdFromTopic now
  else
    match s.judge chain msg with
    | none => s
    | some j =>
      match s.create (row msg workerIdFromTopic j.leaseId j.prefixValid j.chainVerified
          j.chainBlockId now) with
      | none => s
      | some s => if j.chainVerified && j.prefixValid then s.incrementBlocks j.leaseId else s

end BlockWatcher

/-! ## Runs -/

/-- The watcher, and the reports so far that a lease is due to be credited with. -/
structure Watch where
  server : BlockWatcher
  reports : List (String × String)

inductive WatchEvent
  | block (chain : Option (List ChainBlock)) (msg : List (String × PyValue))
      (workerIdFromTopic : String) (now : ℚ)
  /-- `create` of a lease with the id `lease-` and a suffix -/
  | rent (suffix : String) (workerId keyPrefix : String)
      (hex : isHexString keyPrefix PLATFORM_PREFIX_LENGTH PLATFORM_PREFIX_LENGTH = true)
  | setState (leaseId : String) (state : LeaseState)

/-- The checks of a message for a lease pass. -/
def BlockWatcher.passed (s : BlockWatcher) (chain : Option (List ChainBlock))
    (msg : List (String × PyValue)) : Option Judged :=
  (s.judge chain msg).filter fun j =>
    j.chainVerified && j.prefixValid && decide (j.leaseId ≠ "")

/-- The lease and the key of a message that passes the checks and comes from the worker of the
lease while it is active. -/
def BlockWatcher.report (s : BlockWatcher) (chain : Option (List ChainBlock))
    (msg : List (String × PyValue)) (workerIdFromTopic : String) : Option (String × String) :=
  ((s.passed chain msg).filter fun j =>
    decide (j.lease.workerId = workerIdFromTopic) && decide (j.lease.state = .active)).map
      fun j => (j.leaseId, j.key)

def watchStep (w : Watch) : WatchEvent → Watch
  | .block chain msg workerIdFromTopic now =>
    { server := w.server.handleBlockFound chain msg workerIdFromTopic now
      reports := w.reports ++ (w.server.report chain msg workerIdFromTopic).toList }
  | .rent suffix workerId keyPrefix hex =>
    { w with server := { w.server with
        leases := w.server.leases.insert ("lease-" ++ suffix) ⟨workerId, keyPrefix, .active, 0, hex⟩ } }
  | .setState leaseId state =>
    { w with server := { w.server with
        leases := w.server.leases.modify leaseId fun l => { l with state } } }

def Watch.start : Watch := ⟨⟨.empty, [], []⟩, []⟩

/-- The number of distinct keys reported for a lease. -/
def keysReported (reports : List (String × String)) (leaseId : String) : Nat :=
  ((reports.filter fun r => r.1 = leaseId).map Prod.snd).toFinset.card

def BlocksCounted (w : Watch) : Prop :=
  ∀ leaseId lease, w.server.leases.get leaseId = some lease →
    lease.blocksFound = keysReported w.reports leaseId

/-- Of the messages that pass the checks, exactly those can be stored that come from the worker
of the lease while it is active, with a key not reported before. -/
def CountedOnce (t : Trans Watch WatchEvent) : Prop :=
  ∀ chain msg workerIdFromTopic now j, t.ev = .block chain msg workerIdFromTopic now →
    t.pre.server.passed chain msg = some j →
    ((t.pre.server.create (BlockWatcher.row msg workerIdFromTopic j.leaseId j.prefixValid
        j.chainVerified j.chainBlockId now)).isSome ↔
      j.lease.workerId = workerIdFromTopic ∧ j.lease.state = .active ∧
        (j.leaseId, j.key) ∉ t.pre.reports)

/-! ## One message -/

namespace BlockWatcher

variable {s : BlockWatcher} {chain : Option (List ChainBlock)} {msg : List (String × PyValue)}

theorem create_leases {s' : BlockWatcher} {r : BlockRow} (h : s.create r = some s') :
    s'.leases = s.leases := by
  unfold create at h
  split_ifs at h
  cases h
  rfl

theorem selfMined_leases (topicId : String) (now : ℚ) :
    (s.handleSelfMinedBlock msg topicId now).leases = s.leases := by
  unfold handleSelfMinedBlock
  dsimp only
  cases h : s.create (row msg topicId "" true true none now) with
  | none => rfl
  | some s' =>
    have := create_leases h
    exact this

theorem judge_some {j : Judged} (h : s.judge chain msg = some j) :
    msgGet msg "lease_id" (.string "") = .string j.leaseId ∧ s.leases.get j.leaseId = some j.lease := by
  unfold judge at h
  split at h
  · next leaseId hid =>
    split at h
    · next lease key hlease hkey =>
      cases h
      exact ⟨hid, hlease⟩
    · cases h
  · cases h

theorem passed_some {j : Judged} (h : s.passed chain msg = some j) :
    s.judge chain msg = some j ∧ j.chainVerified = true ∧ j.prefixValid = true ∧ j.leaseId ≠ "" := by
  unfold passed at h
  obtain ⟨hjudge, hok⟩ := Option.filter_eq_some_iff.1 h
  simp only [Bool.and_eq_true, decide_eq_true_eq] at hok
  exact ⟨hjudge, hok.1.1, hok.1.2, hok.2⟩

theorem passed_none {j : Judged} (h : s.passed chain msg = none) (hj : s.judge chain msg = some j)
    (hid : j.leaseId ≠ "") : (j.chainVerified && j.prefixValid) = false := by
  unfold passed at h
  rw [hj] at h
  simpa [hid] using h

/-- A message counts a block where it passes the checks and its row can be stored. -/
theorem handleBlockFound_leases (topicId : String) (now : ℚ) :
    (s.handleBlockFound chain msg topicId now).leases =
      (s.passed chain msg).elim s.leases fun j =>
        if (s.create (row msg topicId j.leaseId j.prefixValid j.chainVerified j.chainBlockId
            now)).isSome then
          s.leases.modify j.leaseId fun l => { l with blocksFound := l.blocksFound + 1 }
        else s.leases := by
  unfold handleBlockFound
  by_cases htruthy : truthy (msgGet msg "lease_id" (.string "")) = true
  · rw [htruthy, if_neg (by simp)]
    cases hjudge : s.judge chain msg with
    | none =>
      have hnone : s.passed chain msg = none := by
        unfold passed
        rw [hjudge]
        rfl
      rw [hnone]
      rfl
    | some j =>
      have hid : j.leaseId ≠ "" := by
        rw [(judge_some hjudge).1] at htruthy
        simpa [truthy] using htruthy
      dsimp only
      cases hpassed : s.passed chain msg with
      | none =>
        have hfail := passed_none hpassed hjudge hid
        rw [Option.elim_none]
        cases hcreate : s.create (row msg topicId j.leaseId j.prefixValid j.chainVerified
          j.chainBlockId now) with
        | none => rfl
        | some s' =>
          dsimp only
          rw [hfail, if_neg Bool.false_ne_true]
          exact create_leases hcreate
      | some j' =>
        obtain ⟨hjudge', hchain, hprefix, -⟩ := passed_some hpassed
        rw [hjudge] at hjudge'
        cases hjudge'
        rw [Option.elim_some]
        cases hcreate : s.create (row msg topicId j.leaseId j.prefixValid j.chainVerified
          j.chainBlockId now) with
        | none => simp
        | some s' =>
          dsimp only
          rw [hchain, hprefix, Bool.and_self, if_pos rfl, Option.isSome_some, if_pos rfl]
          unfold incrementBlocks
          rw [create_leases hcreate]
  · have hfalse : truthy (msgGet msg "lease_id" (.string "")) = false := by simpa using htruthy
    have hnone : s.passed chain msg = none := by
      by_contra hsome
      obtain ⟨j, hj⟩ := Option.ne_none_iff_exists'.1 hsome
      obtain ⟨hjudge, -, -, hid⟩ := passed_some hj
      rw [(judge_some hjudge).1] at hfalse
      exact hid (by simpa [truthy] using hfalse)
    rw [hfalse, Bool.not_false, if_pos rfl, hnone, Option.elim_none]
    exact selfMined_leases topicId now

end BlockWatcher

/-! ## The count -/

theorem keysReported_append (reports : List (String × String)) (leaseId key id : String) :
    keysReported (reports ++ [(leaseId, key)]) id =
      keysReported reports id + if id = leaseId ∧ (leaseId, key) ∉ reports then 1 else 0 := by
  unfold keysReported
  rw [List.filter_append, List.map_append, List.toFinset_append]
  by_cases hid : id = leaseId
  · subst hid
    have hone : (([(id, key)].filter fun r => r.1 = id).map Prod.snd).toFinset = {key} := by simp
    have hmem : key ∈ ((reports.filter fun r => r.1 = id).map Prod.snd).toFinset ↔
        (id, key) ∈ reports := by simp
    rw [hone, Finset.union_singleton]
    by_cases hkey : (id, key) ∈ reports
    · rw [Finset.card_insert_of_mem (hmem.2 hkey), if_neg (by simp [hkey]), Nat.add_zero]
    · rw [Finset.card_insert_of_notMem fun h => hkey (hmem.1 h), if_pos ⟨rfl, hkey⟩]
  · have hnone : (([(leaseId, key)].filter fun r => r.1 = id).map Prod.snd).toFinset = ∅ := by
      simp [Ne.symm hid]
    rw [hnone, Finset.union_empty, if_neg (by simp [hid]), Nat.add_zero]

/-- Every report is for a lease the table has. -/
def ReportsKnown (w : Watch) : Prop :=
  ∀ r ∈ w.reports, w.server.leases.get r.1 ≠ none

structure Counting (w : Watch) : Prop where
  counted : BlocksCounted w
  known : ReportsKnown w

theorem keysReported_unknown {w : Watch} (h : ReportsKnown w) {leaseId : String}
    (hnone : w.server.leases.get leaseId = none) : keysReported w.reports leaseId = 0 := by
  have hempty : w.reports.filter (fun r => r.1 = leaseId) = [] := by
    rw [List.filter_eq_nil_iff]
    intro r hr hid
    rw [← of_decide_eq_true hid] at hnone
    exact h r hr hnone
  unfold keysReported
  rw [hempty]
  rfl

/-- What a message adds to a counter. -/
theorem get_counted (leases : Table String WatchedLease) (leaseId id : String) (stored : Bool) :
    (if stored then leases.modify leaseId fun l => { l with blocksFound := l.blocksFound + 1 }
      else leases).get id =
      (leases.get id).map fun l =>
        { l with blocksFound := l.blocksFound + if id = leaseId ∧ stored = true then 1 else 0 } := by
  cases stored with
  | false => simp
  | true =>
    rw [if_pos rfl, Table.get_modify]
    by_cases hid : id = leaseId <;> simp [hid]

/-- A message keeps the count exactly where it is stored if and only if it is to be credited. -/
theorem block_step {w : Watch} (h : Counting w) (chain : Option (List ChainBlock))
    (msg : List (String × PyValue)) (topicId : String) (now : ℚ) :
    ReportsKnown (watchStep w (.block chain msg topicId now)) ∧
      (BlocksCounted (watchStep w (.block chain msg topicId now)) ↔
        ∀ j, w.server.passed chain msg = some j →
          ((w.server.create (BlockWatcher.row msg topicId j.leaseId j.prefixValid
              j.chainVerified j.chainBlockId now)).isSome ↔
            j.lease.workerId = topicId ∧ j.lease.state = .active ∧
              (j.leaseId, j.key) ∉ w.reports)) := by
  unfold ReportsKnown BlocksCounted watchStep
  dsimp only
  rw [BlockWatcher.handleBlockFound_leases]
  unfold BlockWatcher.report
  cases hpassed : w.server.passed chain msg with
  | none =>
    rw [Option.elim_none, Option.filter_none, Option.map_none, Option.toList_none, List.append_nil]
    exact ⟨h.known, fun _ j hj => (Option.some_ne_none j hj.symm).elim, fun _ => h.counted⟩
  | some j =>
    have hlease := (BlockWatcher.judge_some (BlockWatcher.passed_some hpassed).1).2
    rw [Option.elim_some]
    generalize hstored : (w.server.create (BlockWatcher.row msg topicId j.leaseId j.prefixValid
      j.chainVerified j.chainBlockId now)).isSome = stored
    have hkeys : ∀ id, keysReported (w.reports ++ (((some j).filter fun j =>
        decide (j.lease.workerId = topicId) && decide (j.lease.state = .active)).map
          fun j => (j.leaseId, j.key)).toList) id = keysReported w.reports id +
        if id = j.leaseId ∧ j.lease.workerId = topicId ∧ j.lease.state = .active ∧
          (j.leaseId, j.key) ∉ w.reports then 1 else 0 := by
      intro id
      by_cases hown : j.lease.workerId = topicId ∧ j.lease.state = .active
      · have hsome : ((some j).filter fun j =>
            decide (j.lease.workerId = topicId) && decide (j.lease.state = .active)) = some j := by
          simp [hown.1, hown.2]
        rw [hsome, Option.map_some, Option.toList_some, keysReported_append]
        simp [hown.1, hown.2]
      · have hnone : ((some j).filter fun j =>
            decide (j.lease.workerId = topicId) && decide (j.lease.state = .active)) = none := by
          simpa using hown
        rw [hnone, Option.map_none, Option.toList_none, List.append_nil, if_neg, Nat.add_zero]
        rintro ⟨-, hworker, hactive, -⟩
        exact hown ⟨hworker, hactive⟩
    refine ⟨fun r hr => ?_, fun hcount j' hj' => ?_, fun hcond id lease hget => ?_⟩
    · rw [get_counted]
      have hsome : w.server.leases.get r.1 ≠ none := by
        rcases List.mem_append.1 hr with hr | hr
        · exact h.known r hr
        · obtain ⟨j', hj', rfl⟩ := Option.map_eq_some_iff.1 (Option.mem_toList.1 hr)
          obtain ⟨hj', -⟩ := Option.filter_eq_some_iff.1 hj'
          cases hj'
          rw [hlease]
          simp
      simpa using hsome
    · cases hj'
      have hcounted := hcount j.leaseId
      rw [get_counted, hlease, hkeys] at hcounted
      have heq := hcounted _ rfl
      dsimp only at heq
      rw [h.counted _ _ hlease] at heq
      rw [hstored]
      have heq' := Nat.add_left_cancel heq
      constructor
      · intro hst
        by_contra hnot
        rw [if_pos ⟨rfl, hst⟩, if_neg fun hc => hnot hc.2] at heq'
        cases heq'
      · intro hok
        by_contra hnot
        rw [if_neg fun hc => hnot hc.2, if_pos ⟨rfl, hok⟩] at heq'
        cases heq'
    · have hiff := hcond j rfl
      rw [hstored] at hiff
      rw [get_counted] at hget
      obtain ⟨lease0, hget0, rfl⟩ := Option.map_eq_some_iff.1 hget
      rw [hkeys, ← h.counted _ _ hget0]
      dsimp only
      congr 1
      by_cases hid : id = j.leaseId
      · by_cases hst : stored = true
        · rw [if_pos ⟨hid, hst⟩, if_pos ⟨hid, hiff.1 hst⟩]
        · rw [if_neg fun hc => hst hc.2, if_neg fun hc => hst (hiff.2 hc.2)]
      · rw [if_neg fun hc => hid hc.1, if_neg fun hc => hid hc.1]

theorem counting_start : Counting .start := by
  constructor
  · intro leaseId lease h
    cases h
  · intro r hr
    cases hr

theorem counting_step {t : Trans Watch WatchEvent} (hs : t.post = watchStep t.pre t.ev)
    (h : Counting t.pre) (honce : CountedOnce t) : Counting t.post := by
  rw [hs]
  unfold CountedOnce at honce
  cases hev : t.ev with
  | block chain msg topicId now =>
    obtain ⟨hknown, hcount⟩ := block_step h chain msg topicId now
    exact ⟨hcount.2 fun j hj => honce chain msg topicId now j hev hj, hknown⟩
  | rent suffix workerId keyPrefix hex =>
    constructor
    · intro leaseId lease hget
      change (t.pre.server.leases.insert _ _).get leaseId = some lease at hget
      rw [Table.get_insert] at hget
      split_ifs at hget with hnew
      · cases hget
        obtain ⟨rfl, hnone⟩ := hnew
        exact (keysReported_unknown h.known hnone).symm
      · exact h.counted leaseId lease hget
    · intro r hr
      change (t.pre.server.leases.insert _ _).get r.1 ≠ none
      rw [Table.get_insert]
      split_ifs
      · simp
      · exact h.known r hr
  | setState leaseId state =>
    constructor
    · intro id lease hget
      change (t.pre.server.leases.modify _ _).get id = some lease at hget
      rw [Table.get_modify] at hget
      split_ifs at hget
      · obtain ⟨lease0, hget0, rfl⟩ := Option.map_eq_some_iff.1 hget
        exact h.counted id lease0 hget0
      · exact h.counted id lease hget
    · intro r hr
      change (t.pre.server.leases.modify _ _).get r.1 ≠ none
      rw [Table.get_modify]
      split_ifs
      · simpa using h.known r hr
      · exact h.known r hr

theorem miscounted {t : Trans Watch WatchEvent} (hs : t.post = watchStep t.pre t.ev)
    (h : Counting t.pre) (honce : ¬ CountedOnce t) : ¬ BlocksCounted t.post := by
  intro hcount
  refine honce fun chain msg topicId now j hev hj => ?_
  rw [hs, hev] at hcount
  exact (block_step h chain msg topicId now).2.1 hcount j hj

/-- In all states of a run every lease counts its keys exactly when, of the messages that pass
the checks, those and only those can be stored that are to be credited. -/
theorem blocks_counted_iff (events : List WatchEvent) :
    (∀ w ∈ visited .start (trace watchStep .start events), BlocksCounted w) ↔
      ∀ t ∈ trace watchStep .start events, CountedOnce t :=
  (Run.trace watchStep .start events).forall_iff (fun _ h => h.counted)
    (fun _ hs h honce => counting_step hs h honce) (fun _ hs h honce => miscounted hs h honce)
    counting_start

/-- A message of rig-1 about the lease. -/
def foundMessage : List (String × PyValue) :=
  [("lease_id", .string "lease-1"), ("key", .string "0123456789abcdefff")]

/-- The same message twice counts twice. -/
theorem repeated_block_counts : ¬ ∀ events,
    ∀ w ∈ visited .start (trace watchStep .start events), BlocksCounted w := by
  intro h
  have hcount := h [.rent "1" "rig-1" "0123456789abcdef" (by decide),
    .block none foundMessage "rig-1" 0, .block none foundMessage "rig-1" 1] _
    (Run.trace watchStep _ _).mem_visited "lease-1"
      ⟨"rig-1", "0123456789abcdef", .active, 2, by decide⟩ (by decide)
  revert hcount
  decide

end TreeMiner.Server
