import Mathlib.Data.List.Basic
import TreeMiner.Core.Types

/-! The durable find journal: the `finds` table with its primary key and its unique key
column, and the statements the crates run on it. The statements fail only as the code
itself makes them fail. -/

namespace TreeMiner

/-- Server-side limit on `hash_to_verify`. -/
def MAX_HASH_TO_VERIFY_LENGTH : Nat := 150

inductive JournalError
  | contract (what : String)
deriving DecidableEq, Repr

def F64.isNaN (x : F64) : Bool := !x.isFinite && (x.bits &&& 0xfffffffffffff != 0)

/-- A bound NaN is stored as NULL, which reads back as zero. -/
def F64.stored (x : F64) : F64 := if x.isNaN then ⟨0⟩ else x

/-- The rows in id order. No two rows share an id or a key. -/
structure Finds where
  rows : List FindRecord
  ids : rows.Pairwise fun a b => a.id < b.id
  keys : rows.Pairwise fun a b => a.payload.key ≠ b.payload.key

namespace Finds

def empty : Finds := ⟨[], .nil, .nil⟩

/-- An `UPDATE` that writes neither `id` nor a captured column. -/
def update (t : Finds) (f : FindRecord → FindRecord) (hid : ∀ r, (f r).id = r.id)
    (hpay : ∀ r, (f r).payload = r.payload) : Finds where
  rows := t.rows.map f
  ids := by
    rw [List.pairwise_map]
    exact t.ids.imp fun h => by rw [hid, hid]; exact h
  keys := by
    rw [List.pairwise_map]
    exact t.keys.imp fun h => by rw [hpay, hpay]; exact h

/-- The rowid SQLite gives the next row. -/
def nextId (t : Finds) : Int := ((t.rows.getLast?.map (·.id)).getD 0) + 1

theorem id_lt_nextId (t : Finds) {r : FindRecord} (h : r ∈ t.rows) : r.id < t.nextId := by
  have hne : t.rows ≠ [] := List.ne_nil_of_mem h
  have hlast : t.rows.getLast? = some (t.rows.getLast hne) := List.getLast?_eq_getLast_of_ne_nil hne
  have hids := t.ids
  rw [← List.dropLast_concat_getLast hne] at h hids
  unfold nextId
  rw [hlast]
  rcases List.mem_append.1 h with h | h
  · have := (List.pairwise_append.1 hids).2.2 r h _ List.mem_cons_self
    simp only [Option.map_some, Option.getD_some]
    omega
  · rw [List.mem_singleton.1 h, Option.map_some, Option.getD_some]
    omega

/-- `INSERT` of a row whose key no row has. -/
def insert (t : Finds) (r : FindRecord) (hid : r.id = t.nextId)
    (hkey : ∀ x ∈ t.rows, x.payload.key ≠ r.payload.key) : Finds where
  rows := t.rows ++ [r]
  ids := by
    rw [List.pairwise_append]
    refine ⟨t.ids, List.pairwise_singleton _ _, fun a ha b hb => ?_⟩
    rw [List.mem_singleton.1 hb, hid]
    exact t.id_lt_nextId ha
  keys := by
    rw [List.pairwise_append]
    refine ⟨t.keys, List.pairwise_singleton _ _, fun a ha b hb => ?_⟩
    rw [List.mem_singleton.1 hb]
    exact hkey a ha

/-- The status and reason a find is journaled with. -/
def initialStatus (payload : FoundPayload) : FindStatus × String :=
  if payload.hashToVerify.utf8ByteSize > MAX_HASH_TO_VERIFY_LENGTH then
    (.permanentlyInvalid, s!"hash_to_verify length {payload.hashToVerify.utf8ByteSize} exceeds " ++
      s!"server limit of {MAX_HASH_TO_VERIFY_LENGTH}")
  else if payload.account.isEmpty then (.permanentlyInvalid, "account is empty")
  else (.pending, "")

def newRecord (t : Finds) (payload : FoundPayload) : FindRecord where
  id := t.nextId
  payload := { payload with hashesPerSecond := payload.hashesPerSecond.stored }
  status := (initialStatus payload).1
  statusReason := (initialStatus payload).2
  attemptCount := 0
  nextAttemptAt := none
  lastAttemptAt := none
  lastHttpStatus := none
  lastResponse := ""
  confirmedAt := none
  xuniWindowsTried := 0

/-- A duplicate key returns the existing row's id and leaves the capture alone. -/
def append (t : Finds) (payload : FoundPayload) : Int × Finds :=
  match h : t.rows.find? fun r => r.payload.key = payload.key with
  | some r => (r.id, t)
  | none => (t.nextId, t.insert (t.newRecord payload) rfl fun x hx => by
      have := List.find?_eq_none.1 h x hx
      simpa [newRecord] using this)

/-- An append finds the row of its key, or adds one at the end. -/
theorem append_spec (t : Finds) (p : FoundPayload) :
    (∃ r ∈ t.rows, r.payload.key = p.key ∧ t.append p = (r.id, t)) ∨
    ((∀ r ∈ t.rows, r.payload.key ≠ p.key) ∧ (t.append p).1 = t.nextId ∧
      (t.append p).2.rows = t.rows ++ [t.newRecord p]) := by
  unfold append
  split
  · next r h =>
    have hkey : r.payload.key = p.key := by simpa using List.find?_some h
    exact Or.inl ⟨r, List.mem_of_find?_eq_some h, hkey, rfl⟩
  · next h =>
    refine Or.inr ⟨fun r hr hkey => ?_, rfl, rfl⟩
    exact List.find?_eq_none.1 h r hr (decide_eq_true hkey)

/-- The id an append returns is that of a row with the payload's key. -/
theorem append_row (t : Finds) (p : FoundPayload) :
    ∃ r ∈ (t.append p).2.rows, r.id = (t.append p).1 ∧ r.payload.key = p.key := by
  rcases t.append_spec p with ⟨r, hr, hkey, h⟩ | ⟨-, hid, hrows⟩
  · rw [h]
    exact ⟨r, hr, rfl, hkey⟩
  · rw [hid, hrows]
    exact ⟨t.newRecord p, List.mem_append_right _ (List.mem_singleton.2 rfl), rfl, rfl⟩

/-- Due rows of one status, oldest first. -/
def fetchByStatus (t : Finds) (status : FindStatus) (kind : Option FindKind) (nowUtc : String)
    (limit : Nat) : List FindRecord :=
  (t.rows.filter fun r => decide (r.status = status) &&
    (match kind with | some k => decide (r.payload.kind = k) | none => true) &&
    (match r.nextAttemptAt with | some at' => decide (at' ≤ nowUtc) | none => true)).take limit

def fetchEligibleOfKind (t : Finds) (kind : FindKind) (nowUtc : String) (limit : Nat) :
    List FindRecord :=
  t.fetchByStatus .pending (some kind) nowUtc limit

def fetchAwaitingConfirmation (t : Finds) (nowUtc : String) (limit : Nat) : List FindRecord :=
  t.fetchByStatus .acceptedUnconfirmed none nowUtc limit

/-- What one attempt writes into its row. -/
def attempted (c : Classification) (httpStatus : Option Int) (responseBody : String)
    (nextAttemptAt : Option String) (nowUtc : String) (r : FindRecord) : FindRecord :=
  { r with
    status := c.nextStatus
    statusReason := c.reason
    attemptCount := r.attemptCount + 1
    lastAttemptAt := some nowUtc
    lastHttpStatus := httpStatus
    lastResponse := responseBody
    nextAttemptAt := nextAttemptAt
    confirmedAt := if c.nextStatus = .acked then some (r.confirmedAt.getD nowUtc)
      else r.confirmedAt }

def recordAttempt (t : Finds) (id : Int) (c : Classification) (httpStatus : Option Int)
    (responseBody : String) (nextAttemptAt : Option String) (nowUtc : String) :
    Except JournalError Finds :=
  if c.nextStatus = .submitting then
    .error (.contract ("record_attempt with status Submitting — that state is in-process only " ++
      "and must never be persisted"))
  else if t.rows.any fun r => r.id = id then
    .ok (t.update
      (fun r => if r.id = id then attempted c httpStatus responseBody nextAttemptAt nowUtc r
        else r)
      (fun r => by split_ifs <;> rfl) fun r => by split_ifs <;> rfl)
  else .error (.contract s!"record_attempt for unknown find id {id}")

/-- The row update of `unpark_for_difficulty`; the boundary `m == difficulty` un-parks. -/
def unparkedAt (difficulty : UInt32) (r : FindRecord) : FindRecord :=
  if r.status = .parkedDifficulty ∧ difficulty ≤ r.payload.memoryCost then
    { r with status := .pending, nextAttemptAt := none }
  else r

def unparkForDifficulty (t : Finds) (difficulty : UInt32) : Finds :=
  t.update (unparkedAt difficulty) (fun r => by unfold unparkedAt; split_ifs <;> rfl)
    fun r => by unfold unparkedAt; split_ifs <;> rfl

def exhausted (maxWindows : Int) (r : FindRecord) : FindRecord :=
  if r.status = .parkedXuniWindow ∧ r.xuniWindowsTried ≥ maxWindows then
    { r with
      status := .dead
      statusReason := "xuni window budget exhausted"
      nextAttemptAt := none }
  else r

def unparkedXuni (r : FindRecord) : FindRecord :=
  if r.status = .parkedXuniWindow then
    { r with
      status := .pending
      xuniWindowsTried := r.xuniWindowsTried + 1
      nextAttemptAt := none }
  else r

/-- Parked XUNI without budget go to `dead`; whatever is still parked has budget left. -/
def unparkXuniForWindow (t : Finds) (maxWindows : Int) : Finds :=
  (t.update (exhausted maxWindows) (fun r => by unfold exhausted; split_ifs <;> rfl)
    fun r => by unfold exhausted; split_ifs <;> rfl).update unparkedXuni
      (fun r => by unfold unparkedXuni; split_ifs <;> rfl)
      fun r => by unfold unparkedXuni; split_ifs <;> rfl

def recovered (r : FindRecord) : FindRecord :=
  if r.status = .submitting then { r with status := .pending } else r

def recoverOnStartup (t : Finds) : Finds :=
  t.update recovered (fun r => by unfold recovered; split_ifs <;> rfl)
    fun r => by unfold recovered; split_ifs <;> rfl

/-- The counts behind the margin: everything journaled that is not yet terminal. -/
def backlog (t : Finds) : Nat :=
  t.rows.countP fun r => match r.status with
    | .pending | .parkedDifficulty | .parkedXuniWindow | .acceptedUnconfirmed | .quarantined => true
    | _ => false

end Finds

/-- The table and the difficulty observation log. -/
structure Journal where
  finds : Finds
  difficultySeen : List (String × UInt32)

namespace Journal

def empty : Journal := ⟨.empty, []⟩

def recordDifficulty (j : Journal) (difficulty : UInt32) (atUtc : String) : Journal :=
  { j with difficultySeen := j.difficultySeen ++ [(atUtc, difficulty)] }

def lastKnownDifficulty (j : Journal) : Option UInt32 := j.difficultySeen.getLast?.map (·.2)

end Journal

end TreeMiner
