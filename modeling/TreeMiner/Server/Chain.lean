import Mathlib.Algebra.Order.Field.Rat
import Mathlib.Data.Finset.Insert
import Mathlib.Logic.Function.Iterate
import TreeMiner.Core.Prim
import TreeMiner.Lib.Run
import TreeMiner.Lib.Table
import TreeMiner.Server.Wallets
import TreeMiner.Server.Watcher

/-! The chain simulator (`chain_simulator.py`): blocks by submission, one for a key, with
the rewards of their accounts and a difficulty that follows their number. -/

namespace TreeMiner.Server

open Lib

def KEY_HEX_LENGTH : Nat := 64

def MIN_DIFFICULTY : Int := 100

def MAX_DIFFICULTY : Int := 100000

def SUPERBLOCK_UPPERCASE_THRESHOLD : Nat := 50

inductive BlockType
  | normal
  | super
  | xuni
deriving DecidableEq, Repr

def BlockType.text : BlockType → String
  | .normal => "normal"
  | .super => "super"
  | .xuni => "xuni"

/-- `_get_reward` -/
def BlockType.reward : BlockType → ℚ
  | .super => 50
  | .normal => 10
  | .xuni => 1

/-- A block with all it was submitted with. -/
structure SubmittedBlock extends ChainBlock where
  account : String
  hashToVerify : String
  blockType : BlockType
  attempts : Int
  hashesPerSecond : String
  worker : String
  timestamp : ℚ
deriving DecidableEq

/-- What `/verify` reads of its payload. -/
structure VerifyRequest where
  hashToVerify : String
  key : String
  account : String
  attempts : Int
  hashesPerSecond : String
  worker : String
deriving DecidableEq, Repr

/-- What the simulator asks of Python's texts: `str.lower`, `str.isupper` of a character, `\d`, and
whether `int(key, 16)` reads a text. -/
structure PyText where
  lower : String → String
  isUpper : Char → Bool
  isDecimal : Char → Bool
  readsBase16 : String → Bool

structure ChainSimulator where
  difficulty : Int
  adjustInterval : { n : Nat // 0 < n }
  xuniAlwaysValid : Bool
  blockMarker : String
  blocks : List SubmittedBlock
  nextBlockId : Nat
  balances : Table String ℚ
  /-- a set of texts -/
  knownKeys : Finset String

/-- The clocks a submission reads: the minute of the hour and the time of the block. -/
structure ChainClock where
  minute : Nat
  now : ℚ

/-- `XUNI\d`, anywhere. -/
def searchXuni (py : PyText) (hash : List Char) : Bool :=
  hash.tails.any fun tail =>
    ['X', 'U', 'N', 'I'].isPrefixOf tail && (tail.drop 4).head?.any py.isDecimal

/-- In front of the clamp, `int(difficulty * 1.05)`: no double is rounded across a whole number
here. -/
def adjusted (difficulty : Int) : Int :=
  max MIN_DIFFICULTY (min MAX_DIFFICULTY (difficulty * 21 / 20))

def isXuniTimeWindow (minute : Nat) : Bool := decide (minute < 5) || decide (minute ≥ 55)

def validateKey (py : PyText) (key : String) : Except String Unit :=
  if key = "" then .error "Key is empty"
  else if key.length < KEY_HEX_LENGTH then
    .error s!"Key too short: {key.length} chars (need >= {KEY_HEX_LENGTH})"
  else if !py.readsBase16 key then .error "Key contains non-hex characters"
  else .ok ()

namespace ChainSimulator

def new (baseDifficulty : Int) (adjustInterval : { n : Nat // 0 < n }) (xuniAlwaysValid : Bool)
    (blockMarker : String) : ChainSimulator where
  difficulty := baseDifficulty
  adjustInterval := adjustInterval
  xuniAlwaysValid := xuniAlwaysValid
  blockMarker := if blockMarker = "" then "XEN11" else blockMarker
  blocks := []
  nextBlockId := 1
  balances := .empty
  knownKeys := ∅

variable (py : PyText)

def classifyBlock (c : ChainSimulator) (hash : String) (minute : Nat) : Option BlockType :=
  if containsText hash c.blockMarker then
    if (hash.toList.filter py.isUpper).length ≥ SUPERBLOCK_UPPERCASE_THRESHOLD then some .super
    else some .normal
  else if searchXuni py hash.toList then
    if !c.xuniAlwaysValid && !isXuniTimeWindow minute then none else some .xuni
  else none

def getBalance (c : ChainSimulator) (address : String) : ℚ :=
  (c.balances.get (py.lower address)).getD 0

/-- The block with its reward, and the difficulty after every so many. -/
def accept (c : ChainSimulator) (req : VerifyRequest) (blockType : BlockType) (now : ℚ) :
    ChainSimulator :=
  let block : SubmittedBlock :=
    { blockId := c.nextBlockId
      account := req.account
      key := req.key
      hashToVerify := req.hashToVerify
      blockType := blockType
      attempts := req.attempts
      hashesPerSecond := req.hashesPerSecond
      worker := req.worker
      timestamp := now }
  let blocks := c.blocks ++ [block]
  { c with
    blocks := blocks
    knownKeys := insert req.key c.knownKeys
    nextBlockId := c.nextBlockId + 1
    balances := c.balances.put (py.lower req.account)
      (c.getBalance py req.account + blockType.reward)
    difficulty := if blocks.length % c.adjustInterval.1 = 0 then adjusted c.difficulty
      else c.difficulty }

/-- The message, and the type of the block that was accepted. -/
def submitBlock (c : ChainSimulator) (req : VerifyRequest) (clock : ChainClock) :
    ChainSimulator × Except String (String × BlockType) :=
  match validateKey py req.key with
  | .error text => (c, .error text)
  | .ok () =>
    if req.key ∈ c.knownKeys then (c, .error "Key already exists")
    else
      match c.classifyBlock py req.hashToVerify clock.minute with
      | none => (c, .error "Hash does not contain valid block marker (XEN11 or XUNI)")
      | some blockType =>
        (c.accept py req blockType clock.now,
          .ok (s!"Block accepted: {blockType.text} #{c.nextBlockId}", blockType))

/-- The status of an error, by its text. -/
def errorStatus (message : String) : Int :=
  let lowered := String.ofList (lower message)
  if containsText message "already exists" then 409
  else if containsText lowered "outside of time window" ∨ containsText lowered "time window" then
    400
  else 500

/-- `POST /verify`: the status and the body of the answer. -/
def verifyBlock (c : ChainSimulator) (req : VerifyRequest) (clock : ChainClock) :
    ChainSimulator × Int × String :=
  match c.submitBlock py req clock with
  | (c, .ok (message, blockType)) =>
    (c, 200, "\x7b\"status\":\"success\",\"message\":\"" ++ message ++ "\",\"block_type\":\"" ++
      blockType.text ++ "\",\"block_id\":" ++ toString (c.nextBlockId - 1) ++ "\x7d")
  | (c, .error message) =>
    (c, errorStatus message, "\x7b\"status\":\"error\",\"message\":\"" ++ message ++ "\"\x7d")

/-! ## One submission -/

variable {py}

/-- A block is accepted for a valid new key under a hash with a marker, and nothing else changes
the chain. -/
theorem submitBlock_cases (c : ChainSimulator) (req : VerifyRequest) (clock : ChainClock) :
    (∃ text, c.submitBlock py req clock = (c, .error text) ∧
        (req.key ∈ c.knownKeys → validateKey py req.key = .ok () → text = "Key already exists")) ∨
      ∃ blockType, validateKey py req.key = .ok () ∧ req.key ∉ c.knownKeys ∧
        c.classifyBlock py req.hashToVerify clock.minute = some blockType ∧
        c.submitBlock py req clock = (c.accept py req blockType clock.now,
          .ok (s!"Block accepted: {blockType.text} #{c.nextBlockId}", blockType)) := by
  unfold submitBlock
  cases hkey : validateKey py req.key with
  | error text => exact Or.inl ⟨text, rfl, fun _ hno => nomatch hno⟩
  | ok u =>
    dsimp only
    by_cases hknown : req.key ∈ c.knownKeys
    · exact Or.inl ⟨_, if_pos hknown, fun _ _ => rfl⟩
    · rw [if_neg hknown]
      cases hclass : c.classifyBlock py req.hashToVerify clock.minute with
      | none => exact Or.inl ⟨_, rfl, fun h => absurd h hknown⟩
      | some blockType => exact Or.inr ⟨blockType, rfl, hknown, rfl, rfl⟩

/-! ## Runs -/

/-- A submission and the clock it meets. -/
def submitted (py : PyText) (c : ChainSimulator) (s : VerifyRequest × ChainClock) :
    ChainSimulator :=
  (c.submitBlock py s.1 s.2).1

/-- What the chain pays an account. -/
def rewards (py : PyText) (blocks : List SubmittedBlock) (address : String) : ℚ :=
  ((blocks.filter fun b => py.lower b.account = py.lower address).map
    fun b => b.blockType.reward).sum

/-- The books of a chain that started at `base`. -/
structure Ledger (py : PyText) (base : Int) (c : ChainSimulator) : Prop where
  ids : c.blocks.map (fun b => b.blockId) = List.range' 1 c.blocks.length
  next : c.nextBlockId = c.blocks.length + 1
  keys : (c.blocks.map fun b => b.key).Nodup
  known : ∀ key, key ∈ c.knownKeys ↔ ∃ b ∈ c.blocks, b.key = key
  paid : ∀ address, c.getBalance py address = rewards py c.blocks address
  difficulty : c.difficulty = adjusted^[c.blocks.length / c.adjustInterval.1] base

theorem ledger_new (base : Int) (interval : { n : Nat // 0 < n }) (xuniAlwaysValid : Bool)
    (marker : String) : Ledger py base (.new base interval xuniAlwaysValid marker) where
  ids := rfl
  next := rfl
  keys := List.nodup_nil
  known := by simp [new]
  paid := fun _ => rfl
  difficulty := by simp [new]

theorem getBalance_accept (c : ChainSimulator) (req : VerifyRequest) (blockType : BlockType)
    (now : ℚ) (address : String) :
    (c.accept py req blockType now).getBalance py address = c.getBalance py address +
      if py.lower req.account = py.lower address then blockType.reward else 0 := by
  unfold getBalance accept
  dsimp only
  rw [Table.get_put]
  by_cases h : py.lower address = py.lower req.account
  · simp [h, getBalance]
  · rw [if_neg h, if_neg (Ne.symm h), add_zero]

theorem iterate_div_succ {α : Type*} (f : α → α) (a : α) (n k : Nat) :
    f^[(n + 1) / k] a = if (n + 1) % k = 0 then f (f^[n / k] a) else f^[n / k] a := by
  rw [Nat.succ_div]
  split_ifs with hdvd hmod hmod
  · exact Function.iterate_succ_apply' f _ a
  · exact absurd (Nat.mod_eq_zero_of_dvd hdvd) hmod
  · exact absurd (Nat.dvd_of_mod_eq_zero hmod) hdvd
  · rfl

theorem Ledger.accept {base : Int} {c : ChainSimulator} (h : Ledger py base c)
    {req : VerifyRequest} (blockType : BlockType) (now : ℚ) (hnew : req.key ∉ c.knownKeys) :
    Ledger py base (c.accept py req blockType now) where
  ids := by
    unfold ChainSimulator.accept
    dsimp only
    rw [List.map_append, h.ids, List.length_append, List.length_singleton, List.range'_concat,
      h.next]
    simp [Nat.add_comm]
  next := by
    unfold ChainSimulator.accept
    dsimp only
    rw [h.next, List.length_append, List.length_singleton]
  keys := by
    unfold ChainSimulator.accept
    dsimp only
    rw [List.map_append, List.nodup_append]
    refine ⟨h.keys, List.nodup_singleton _, ?_⟩
    rintro key hkey _ hlast rfl
    obtain ⟨b, hb, rfl⟩ := List.mem_map.1 hkey
    rw [List.map_singleton, List.mem_singleton] at hlast
    exact hnew ((h.known _).2 ⟨b, hb, hlast⟩)
  known := by
    intro key
    unfold ChainSimulator.accept
    dsimp only
    rw [Finset.mem_insert, h.known]
    simp only [List.mem_append, List.mem_singleton, or_and_right, exists_or, exists_eq_left]
    rw [or_comm, eq_comm (a := key)]
  paid := by
    intro address
    rw [getBalance_accept, h.paid]
    unfold rewards ChainSimulator.accept
    dsimp only
    rw [List.filter_append, List.map_append, List.sum_append]
    by_cases hsame : py.lower req.account = py.lower address
    · simp [hsame]
    · simp [hsame]
  difficulty := by
    unfold ChainSimulator.accept
    dsimp only
    rw [List.length_append, List.length_singleton, iterate_div_succ, h.difficulty]

theorem Ledger.submitted {base : Int} {c : ChainSimulator} (h : Ledger py base c)
    (s : VerifyRequest × ChainClock) : Ledger py base (c.submitted py s) := by
  unfold ChainSimulator.submitted
  rcases @submitBlock_cases py c s.1 s.2 with ⟨text, hres, -⟩ |
    ⟨blockType, -, hnew, -, hres⟩
  · rw [hres]
    exact h
  · rw [hres]
    exact h.accept blockType s.2.now hnew

/-- What a submission brings: a block for a valid new key under a marked hash, or nothing. -/
def Brings (py : PyText) (t : Trans ChainSimulator (VerifyRequest × ChainClock)) : Prop :=
  (∃ blockType b, validateKey py t.ev.1.key = .ok () ∧
      (∀ old ∈ t.pre.blocks, old.key ≠ t.ev.1.key) ∧
      t.pre.classifyBlock py t.ev.1.hashToVerify t.ev.2.minute = some blockType ∧
      t.post.blocks = t.pre.blocks ++ [b] ∧ b.key = t.ev.1.key ∧ b.account = t.ev.1.account ∧
      b.hashToVerify = t.ev.1.hashToVerify ∧ b.blockType = blockType) ∨
    t.post = t.pre

theorem Ledger.brings {base : Int} {t : Trans ChainSimulator (VerifyRequest × ChainClock)}
    (h : Ledger py base t.pre) (hs : t.post = t.pre.submitted py t.ev) : Brings py t := by
  obtain ⟨c, ⟨req, clock⟩, c'⟩ := t
  obtain rfl : c' = c.submitted py (req, clock) := hs
  unfold Brings ChainSimulator.submitted
  dsimp only
  rcases @submitBlock_cases py c req clock with ⟨text, hres, -⟩ |
    ⟨blockType, hkey, hnew, hclass, hres⟩
  · rw [hres]
    exact Or.inr rfl
  · rw [hres]
    refine Or.inl ⟨blockType, _, hkey, ?_, hclass, rfl, rfl, rfl, rfl, rfl⟩
    intro old hold hsame
    exact hnew ((h.known _).2 ⟨old, hold, hsame⟩)

end ChainSimulator

end TreeMiner.Server
