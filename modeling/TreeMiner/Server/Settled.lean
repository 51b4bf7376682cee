import TreeMiner.Server.Rental

/-! Every completed lease is settled once. A coroutine that completes a lease carries it
until it has settled it; as long as no step makes it lose a lease or take one that another
has completed, what is carried and what is settled share the completed leases out. -/

namespace TreeMiner.Server

open Lib

/-! ## The rows of a lease -/

/-- The types of a settlement's three rows. -/
def settlementTypes : List TransactionType := [.leaseCharge, .providerPayout, .platformFee]

def isRow (leaseId : String) (type : TransactionType) (t : Transaction) : Bool :=
  t.type = type && t.referenceId = leaseId

def Db.rows (d : Db) (leaseId : String) (type : TransactionType) : Nat :=
  d.transactions.countP (isRow leaseId type)

/-- A settlement row, of which `UNIQUE` allows one, and each of the three rows once. -/
structure SettledOnce (d : Db) (leaseId : String) : Prop where
  recorded : (d.settlements.get leaseId).isSome
  rows : ∀ type ∈ settlementTypes, d.rows leaseId type = 1

/-- The rows among statements that are not executed yet. -/
def toCome (leaseId : String) (todo : List Write) (type : TransactionType) : Nat :=
  todo.countP fun
    | .insertTransaction t => isRow leaseId type t
    | _ => false

theorem toCome_addBalance (leaseId id : String) (amount : ℚ) (todo : List Write) :
    toCome leaseId (.addBalance id amount :: todo) = toCome leaseId todo := by
  funext type
  exact List.countP_cons_of_neg Bool.false_ne_true

theorem toCome_insert (leaseId : String) (t : Transaction) (todo : List Write)
    (type : TransactionType) : toCome leaseId (.insertTransaction t :: todo) type =
      toCome leaseId todo type + if isRow leaseId type t then 1 else 0 := List.countP_cons

theorem toCome_statements (lease : LeaseInfo) (cost : ℚ) :
    ∀ type ∈ settlementTypes, toCome lease.leaseId (statements lease cost) type = 1 := by
  intro type htype
  simp only [settlementTypes, List.mem_cons, List.not_mem_nil, or_false] at htype
  rcases htype with rfl | rfl | rfl <;> simp [toCome, statements, isRow]

theorem rows_insert (d : Db) (t : Transaction) (leaseId : String) (type : TransactionType) :
    (d.apply (.insertTransaction t)).rows leaseId type =
      d.rows leaseId type + if isRow leaseId type t then 1 else 0 := by
  change (d.transactions ++ [t]).countP (isRow leaseId type) = _
  rw [List.countP_append, List.countP_singleton]
  rfl

/-- Nothing about a lease has changed. -/
structure SameLease (d d' : Db) (leaseId : String) : Prop where
  lease : d'.leases.get leaseId = d.leases.get leaseId
  rows : ∀ type, d'.rows leaseId type = d.rows leaseId type
  settlement : d'.settlements.get leaseId = d.settlements.get leaseId

theorem SameLease.refl (d : Db) (leaseId : String) : SameLease d d leaseId := ⟨rfl, fun _ => rfl, rfl⟩

theorem SameLease.settledOnce {d d' : Db} {leaseId : String} (h : SameLease d d' leaseId)
    (hs : SettledOnce d leaseId) : SettledOnce d' leaseId where
  recorded := by
    rw [h.settlement]
    exact hs.recorded
  rows type htype := (h.rows type).trans (hs.rows type htype)

/-! ## Carried leases -/

/-- A completed lease on its way: the rows to come and whether the settlement is recorded. -/
structure Carried where
  leaseId : String
  todo : TransactionType → Nat
  recorded : Bool

def unsettled (leaseId : String) : Carried := ⟨leaseId, fun _ => 1, false⟩

def unsettledAll (done : List (Option LeaseInfo)) : List Carried :=
  (done.filterMap id).map fun lease => unsettled lease.leaseId

def SettleCall.carried (c : SettleCall) : Carried :=
  match c.pc with
  | .exec todo => ⟨c.lease.leaseId, toCome c.lease.leaseId todo, false⟩
  | .record => ⟨c.lease.leaseId, fun _ => 0, false⟩
  | .recordCommit => ⟨c.lease.leaseId, fun _ => 0, true⟩
  | _ => unsettled c.lease.leaseId

def StopCall.carried (c : StopCall) : List Carried :=
  match c.pc with
  | .get | .acquire | .check | .complete _ => []
  | .settle sc => [sc.carried]
  | _ => [unsettled c.leaseId]

def WatchCall.carried : WatchCall → List Carried
  | .asleep | .fetch .. | .get .. => []
  | .complete done _ _ => unsettledAll done
  | .completeCommit done lease _ | .free done lease _ | .freeCommit done lease _
  | .publish done lease _ | .refetch done lease _ => unsettledAll done ++ [unsettled lease.leaseId]
  | .settle c rest => c.carried :: unsettledAll rest

def Task.carried : Task → List Carried
  | .stop c => c.carried
  | .watch c => c.carried

def Rental.carried (r : Rental) (who : Nat) : List Carried := (r.task? who).elim [] Task.carried

/-- What is carried fits the database. -/
structure Owes (d : Db) (item : Carried) : Prop where
  completed : ∃ l, d.leases.get item.leaseId = some l ∧ l.state = .completed
  rows : ∀ type ∈ settlementTypes, d.rows item.leaseId type + item.todo type = 1
  recorded : (d.settlements.get item.leaseId).isSome = item.recorded

theorem Owes.same {d d' : Db} {item : Carried} (h : Owes d item)
    (hs : SameLease d d' item.leaseId) : Owes d' item where
  completed := by
    rw [hs.lease]
    exact h.completed
  rows type htype := by
    rw [hs.rows]
    exact h.rows type htype
  recorded := by
    rw [hs.settlement]
    exact h.recorded

/-- A settlement in its transaction has its accounts, and its statements are the last ones of
the six. -/
def SettleCall.OnTrack (d : Db) (c : SettleCall) : Prop :=
  match c.pc with
  | .select => Provided d c.lease
  | .exec todo => Provided d c.lease ∧ ∃ cost before, statements c.lease cost = before ++ todo
  | .noAccount | .failed => False
  | _ => True

def StopCall.OnTrack (d : Db) (c : StopCall) : Prop :=
  match c.pc with
  | .settle sc => sc.OnTrack d
  | _ => True

def WatchCall.OnTrack (d : Db) : WatchCall → Prop
  | .asleep | .fetch .. | .get .. => True
  | .complete done _ _ | .completeCommit done _ _ | .free done _ _ | .freeCommit done _ _
  | .publish done _ _ | .refetch done _ _ => ∀ o ∈ done, o.isSome
  | .settle c rest => c.OnTrack d ∧ ∀ o ∈ rest, o.isSome

def Task.OnTrack (d : Db) : Task → Prop
  | .stop c => c.OnTrack d
  | .watch c => c.OnTrack d

/-- Accounts that come do no harm. -/
theorem SettleCall.OnTrack.mono {d d' : Db} {c : SettleCall}
    (hd : ∀ id ∈ d.accounts.keys, id ∈ d'.accounts.keys) (h : c.OnTrack d) : c.OnTrack d' := by
  obtain ⟨lease, cost, pc⟩ := c
  cases pc with
  | select => exact fun id hid => hd id (h id hid)
  | exec todo => exact ⟨fun id hid => hd id (h.1 id hid), h.2⟩
  | _ => exact h

theorem Task.OnTrack.mono {d d' : Db} {task : Task}
    (hd : ∀ id ∈ d.accounts.keys, id ∈ d'.accounts.keys) (h : task.OnTrack d) : task.OnTrack d' := by
  cases task with
  | stop c =>
    obtain ⟨leaseId, caller, pc⟩ := c
    cases pc with
    | settle sc => exact SettleCall.OnTrack.mono hd h
    | _ => trivial
  | watch c =>
    cases c with
    | settle sc rest => exact ⟨SettleCall.OnTrack.mono hd h.1, h.2⟩
    | _ => exact h

/-! ## The invariant -/

/-- The completed leases are shared out: carried by one coroutine or settled once. -/
structure SharedOut (r : Rental) : Prop where
  owes : ∀ who, ∀ item ∈ r.carried who, Owes r.db item
  nodup : ∀ who, ((r.carried who).map Carried.leaseId).Nodup
  apart : ∀ i j, i ≠ j → ∀ a ∈ r.carried i, ∀ b ∈ r.carried j, a.leaseId ≠ b.leaseId
  onTrack : ∀ who task, r.task? who = some task → task.OnTrack r.db
  settled : ∀ leaseId l, r.db.leases.get leaseId = some l → l.state = .completed →
    (∀ who, ∀ item ∈ r.carried who, item.leaseId ≠ leaseId) → SettledOnce r.db leaseId
  fresh : ∀ leaseId l, r.db.leases.get leaseId = some l → l.state ≠ .completed →
    r.db.settlements.get leaseId = none ∧ ∀ type ∈ settlementTypes, r.db.rows leaseId type = 0

def isActive (d : Db) (leaseId : String) : Bool :=
  (d.leases.get leaseId).any fun l => l.state = .active

/-- What a step of one coroutine does to the leases, by what it carries afterwards. -/
structure Advance (d : Db) (before : List Carried) (d' : Db) (after : List Carried) : Prop where
  same : ∀ leaseId, leaseId ∉ after.map Carried.leaseId → SameLease d d' leaseId
  owes : ∀ item ∈ after, Owes d' item
  nodup : (after.map Carried.leaseId).Nodup
  source : ∀ leaseId ∈ after.map Carried.leaseId,
    leaseId ∈ before.map Carried.leaseId ∨ isActive d leaseId = true
  dropped : ∀ leaseId ∈ before.map Carried.leaseId, leaseId ∉ after.map Carried.leaseId →
    SettledOnce d leaseId
  accounts : ∀ id ∈ d.accounts.keys, id ∈ d'.accounts.keys

theorem Rental.task?_set {r r' : Rental} {who : Nat} {o : Option Task} (hlt : who < r.tasks.length)
    (h : r'.tasks = r.tasks.set who o) (j : Nat) :
    r'.task? j = if j = who then o else r.task? j := by
  unfold Rental.task?
  rw [h]
  exact join_set hlt o j

theorem isActive_iff {d : Db} {leaseId : String} :
    isActive d leaseId = true ↔ ∃ l, d.leases.get leaseId = some l ∧ l.state = .active := by
  unfold isActive
  rw [Option.any_eq_true]
  simp

theorem Owes.not_active {d : Db} {item : Carried} (h : Owes d item) :
    isActive d item.leaseId ≠ true := by
  intro ha
  obtain ⟨l, hget, hstate⟩ := h.completed
  obtain ⟨l', hget', hstate'⟩ := isActive_iff.1 ha
  rw [hget] at hget'
  cases hget'
  rw [hstate] at hstate'
  cases hstate'

/-- The step lemma: a coroutine that advances leaves the leases shared out. -/
theorem SharedOut.advance {r r' : Rental} {who : Nat} {rest : Option Task} (h : SharedOut r)
    (hlt : who < r.tasks.length) (htasks : r'.tasks = r.tasks.set who rest)
    (hadv : Advance r.db (r.carried who) r'.db (rest.elim [] Task.carried))
    (htrack : ∀ task ∈ rest, task.OnTrack r'.db) : SharedOut r' := by
  have hcarried : ∀ j, r'.carried j = if j = who then rest.elim [] Task.carried else r.carried j := by
    intro j
    unfold Rental.carried
    rw [Rental.task?_set hlt htasks]
    split_ifs <;> rfl
  -- what another coroutine carries is neither this one's nor completed by this step
  have hother : ∀ j, j ≠ who → ∀ item ∈ r.carried j,
      item.leaseId ∉ (rest.elim [] Task.carried).map Carried.leaseId := by
    intro j hj item hitem hmem
    rcases hadv.source _ hmem with hbefore | hactive
    · obtain ⟨old, hold, heq⟩ := List.mem_map.1 hbefore
      exact h.apart j who hj item hitem old hold heq.symm
    · exact (h.owes j item hitem).not_active hactive
  refine ⟨fun j item hitem => ?_, fun j => ?_, fun i j hij a ha b hb => ?_, fun j task hj => ?_,
    fun leaseId l hget hstate hnot => ?_, fun leaseId l hget hstate => ?_⟩
  · rw [hcarried] at hitem
    split_ifs at hitem with hj
    · exact hadv.owes item hitem
    · exact (h.owes j item hitem).same (hadv.same _ (hother j hj item hitem))
  · rw [hcarried]
    split_ifs
    · exact hadv.nodup
    · exact h.nodup j
  · rw [hcarried] at ha hb
    split_ifs at ha hb with hi hj hj
    · exact absurd (hi.trans hj.symm) hij
    · intro heq
      exact hother j hj b hb (heq ▸ List.mem_map_of_mem ha)
    · intro heq
      exact hother i hi a ha (heq ▸ List.mem_map_of_mem hb)
    · exact h.apart i j hij a ha b hb
  · rw [Rental.task?_set hlt htasks] at hj
    split_ifs at hj
    · exact htrack task hj
    · exact (h.onTrack j task hj).mono hadv.accounts
  · have hafter : leaseId ∉ (rest.elim [] Task.carried).map Carried.leaseId := by
      intro hmem
      obtain ⟨item, hitem, heq⟩ := List.mem_map.1 hmem
      refine hnot who item ?_ heq
      rw [hcarried, if_pos rfl]
      exact hitem
    have hsame := hadv.same leaseId hafter
    apply hsame.settledOnce
    by_cases hbefore : leaseId ∈ (r.carried who).map Carried.leaseId
    · exact hadv.dropped leaseId hbefore hafter
    · rw [hsame.lease] at hget
      refine h.settled leaseId l hget hstate fun j item hitem heq => ?_
      by_cases hj : j = who
      · subst hj
        exact hbefore (heq ▸ List.mem_map_of_mem hitem)
      · refine hnot j item ?_ heq
        rw [hcarried, if_neg hj]
        exact hitem
  · have hafter : leaseId ∉ (rest.elim [] Task.carried).map Carried.leaseId := by
      intro hmem
      obtain ⟨item, hitem, heq⟩ := List.mem_map.1 hmem
      obtain ⟨l', hget', hstate'⟩ := (hadv.owes item hitem).completed
      rw [heq, hget] at hget'
      cases hget'
      exact hstate hstate'
    have hsame := hadv.same leaseId hafter
    rw [hsame.lease] at hget
    obtain ⟨hnone, hrows⟩ := h.fresh leaseId l hget hstate
    exact ⟨hsame.settlement.trans hnone, fun type htype => (hsame.rows type).trans (hrows type htype)⟩

/-! ## Steps of a settlement -/

/-- It begins outside any transaction and with its accounts there. -/
def SettleCall.CanBegin (s : Store) (c : SettleCall) : Prop :=
  c.begins → s.conn.opened = none ∧ Provided s.db c.lease

instance (s : Store) (c : SettleCall) : Decidable (c.CanBegin s) :=
  inferInstanceAs (Decidable (c.begins → s.conn.opened = none ∧ Provided s.db c.lease))

/-- A step on the way, or the last one. -/
inductive Settling (c : SettleCall) (s : Store) : Turn SettleCall (Option Settlement) × Store → Prop
  | going (c' : SettleCall) (s' : Store) (hlease : c'.carried.leaseId = c.carried.leaseId)
      (owes : Owes s'.db c'.carried) (onTrack : c'.OnTrack s'.db)
      (same : ∀ leaseId, leaseId ≠ c.carried.leaseId → SameLease s.db s'.db leaseId)
      (accounts : ∀ id ∈ s.db.accounts.keys, id ∈ s'.db.accounts.keys) :
    Settling c s (.live c', s')
  | finished (result : Option Settlement) (s' : Store) (hdb : s'.db = s.db)
      (once : SettledOnce s.db c.carried.leaseId) : Settling c s (.returned result, s')

/-- A step that leaves the tables alone. -/
theorem Settling.idle {c c' : SettleCall} {s s' : Store} (hdb : s'.db = s.db)
    (hcarried : c'.carried = c.carried) (howes : Owes s.db c.carried) (htrack : c'.OnTrack s.db) :
    Settling c s (.live c', s') := by
  refine .going c' s' (by rw [hcarried]) ?_ (hdb.symm ▸ htrack) ?_ ?_
  · rw [hdb, hcarried]
    exact howes
  · intro leaseId _
    rw [hdb]
    exact .refl _ _
  · intro id hid
    rw [hdb]
    exact hid

theorem statements_cases {lease : LeaseInfo} {cost : ℚ} {w : Write} (h : w ∈ statements lease cost) :
    (∃ id amount, w = .addBalance id amount) ∨
      ∃ t, w = .insertTransaction t ∧ t.referenceId = lease.leaseId := by
  simp only [statements, List.mem_cons, List.not_mem_nil, or_false] at h
  rcases h with rfl | rfl | rfl | rfl | rfl | rfl
  · exact Or.inl ⟨_, _, rfl⟩
  · exact Or.inl ⟨_, _, rfl⟩
  · exact Or.inl ⟨_, _, rfl⟩
  · exact Or.inr ⟨_, rfl, rfl⟩
  · exact Or.inr ⟨_, rfl, rfl⟩
  · exact Or.inr ⟨_, rfl, rfl⟩

theorem settling_select {lease : LeaseInfo} {cost : ℚ} {s : Store} (who : Nat)
    (howes : Owes s.db (unsettled lease.leaseId)) (hp : Provided s.db lease) :
    Settling ⟨lease, cost, .select⟩ s (SettleCall.step who ⟨lease, cost, .select⟩ s) := by
  obtain ⟨balance, -, hstep⟩ := SettleCall.step_select_some who cost (hp _ List.mem_cons_self)
  rw [hstep]
  refine .going _ s rfl ⟨howes.completed, fun type htype => ?_, howes.recorded⟩ ⟨hp, _, [], rfl⟩
    (fun leaseId _ => .refl _ _) fun id hid => hid
  change s.db.rows lease.leaseId type + toCome lease.leaseId (statements lease _) type = 1
  rw [toCome_statements lease _ type htype]
  exact howes.rows type htype

theorem settling_exec {lease : LeaseInfo} {cost : ℚ} {w : Write} {todo : List Write} {s : Store}
    (who : Nat) (howes : Owes s.db ⟨lease.leaseId, toCome lease.leaseId (w :: todo), false⟩)
    (hp : Provided s.db lease) {total : ℚ} {before : List Write}
    (hsplit : statements lease total = before ++ w :: todo) :
    Settling ⟨lease, cost, .exec (w :: todo)⟩ s
      (SettleCall.step who ⟨lease, cost, .exec (w :: todo)⟩ s) := by
  have hmem : w ∈ statements lease total := by
    rw [hsplit]
    exact List.mem_append_right _ List.mem_cons_self
  have hfinds := finds_statements hp total w hmem
  rw [SettleCall.step_exec who (Db.not_rejects_of_finds hfinds)]
  have htrack : SettleCall.OnTrack (s.write who w).db ⟨lease, cost, .exec todo⟩ := by
    rw [Store.db_write]
    refine ⟨hp.apply w, total, before ++ [w], ?_⟩
    rw [hsplit, List.append_assoc]
    rfl
  have haccounts : ∀ id ∈ s.db.accounts.keys, id ∈ (s.write who w).db.accounts.keys := by
    intro id hid
    rw [Store.db_write]
    exact Db.keys_apply w hid
  rcases statements_cases hmem with ⟨id, amount, rfl⟩ | ⟨t, rfl, href⟩
  · have hsame : ∀ leaseId, SameLease s.db (s.write who (.addBalance id amount)).db leaseId := by
      intro leaseId
      rw [Store.db_write]
      exact ⟨rfl, fun _ => rfl, rfl⟩
    rw [toCome_addBalance] at howes
    exact .going _ _ rfl (howes.same (hsame _)) htrack (fun leaseId _ => hsame leaseId) haccounts
  · refine .going _ _ rfl ⟨?_, fun type htype => ?_, ?_⟩ htrack (fun leaseId hne => ?_) haccounts
    · rw [Store.db_write]
      exact howes.completed
    · have hrows : s.db.rows lease.leaseId type +
          toCome lease.leaseId (.insertTransaction t :: todo) type = 1 := howes.rows type htype
      rw [toCome_insert] at hrows
      rw [Store.db_write, rows_insert]
      change s.db.rows lease.leaseId type + (if isRow lease.leaseId type t then 1 else 0) +
        toCome lease.leaseId todo type = 1
      omega
    · rw [Store.db_write]
      exact howes.recorded
    · rw [Store.db_write]
      refine ⟨rfl, fun type => ?_, rfl⟩
      have hne' : lease.leaseId ≠ leaseId := Ne.symm hne
      have hrow : isRow leaseId type t = false := by
        unfold isRow
        rw [href]
        simp [hne']
      rw [rows_insert, hrow]
      rfl

theorem settling_record {lease : LeaseInfo} {cost : ℚ} {s : Store} (who : Nat)
    (howes : Owes s.db ⟨lease.leaseId, fun _ => 0, false⟩) :
    Settling ⟨lease, cost, .record⟩ s (SettleCall.step who ⟨lease, cost, .record⟩ s) := by
  obtain ⟨⟨l, hlease, hstate⟩, hrows, hrecorded⟩ := howes
  have hnone : s.db.settlements.get lease.leaseId = none := by
    simpa using hrecorded
  have hok : s.db.rejects (.insertSettlement lease.leaseId
      (SettleCall.settlement ⟨lease, cost, .record⟩)) = false := by
    simp [Db.rejects, hnone, hlease]
  have hinsert := fun k => Table.get_insert s.db.settlements lease.leaseId k
    (SettleCall.settlement ⟨lease, cost, .record⟩)
  simp only [SettleCall.step, Store.execute_ok who hok]
  refine .going _ _ rfl ⟨?_, fun type htype => ?_, ?_⟩ trivial (fun leaseId hne => ?_) fun id hid => ?_
  · rw [Store.db_write]
    exact ⟨l, hlease, hstate⟩
  · rw [Store.db_write]
    exact hrows type htype
  · rw [Store.db_write]
    change ((s.db.settlements.insert lease.leaseId _).get lease.leaseId).isSome = true
    rw [hinsert, if_pos ⟨rfl, hnone⟩]
    rfl
  · rw [Store.db_write]
    refine ⟨rfl, fun _ => rfl, ?_⟩
    change (s.db.settlements.insert lease.leaseId _).get leaseId = _
    rw [hinsert, if_neg fun h => hne h.1]
  · rw [Store.db_write]
    exact hid

/-- A step of a settlement that is on track. -/
theorem settle_step {c : SettleCall} {s : Store} (who : Nat) (howes : Owes s.db c.carried)
    (htrack : c.OnTrack s.db) (hbegin : c.CanBegin s) : Settling c s (c.step who s) := by
  obtain ⟨lease, cost, pc⟩ := c
  cases pc with
  | begin =>
    obtain ⟨hopened, hprovided⟩ := hbegin rfl
    rw [SettleCall.step_begin who hopened]
    exact .idle (Store.db_begun hopened) rfl howes hprovided
  | select => exact settling_select who howes htrack
  | exec todo =>
    obtain ⟨hp, total, before, hsplit⟩ := htrack
    cases todo with
    | nil => exact .idle (Store.db_commit s) rfl howes trivial
    | cons w todo => exact settling_exec who howes hp hsplit
  | noAccount => cases htrack
  | failed => cases htrack
  | record => exact settling_record who howes
  | recordCommit =>
    exact .finished _ _ (Store.db_commit s) ⟨howes.recorded, fun type htype => howes.rows type htype⟩

/-! ## Steps of the handlers and of the watchdog -/

/-- The step of a handler that completes a lease finds it active still, its release goes out,
and its settlement can begin. -/
def StopCall.sound (signing : Signing) (s : Store) (c : StopCall) : Bool :=
  match c.pc with
  | .complete _ => isActive s.db c.leaseId
  | .publish lease => (publishTask lease.workerId signing).isOk
  | .settle sc => decide (sc.CanBegin s)
  | _ => true

/-- The watchdog's release may also lack the secret. -/
def WatchCall.sound (signing : Signing) (s : Store) : WatchCall → Bool
  | .complete _ lease _ => isActive s.db lease.leaseId
  | .publish _ lease _ =>
    (publishTask lease.workerId signing).isOk || secretMissing (publishTask lease.workerId signing)
  | .settle c _ => decide (c.CanBegin s)
  | _ => true

def Task.sound (signing : Signing) (s : Store) : Task → Bool
  | .stop c => c.sound signing s
  | .watch c => c.sound signing s

def Rental.sound (r : Rental) : RentalEvent → Bool
  | .stop .. => true
  | .step who _ signing => (r.task? who).all fun task => task.sound signing r.store

/-- What a step leaves of its coroutine, with the leases shared out as before. -/
structure Advances (d : Db) (before : List Carried) (rest : Option Task) (d' : Db) : Prop where
  advance : Advance d before d' (rest.elim [] Task.carried)
  onTrack : ∀ task ∈ rest, task.OnTrack d'

/-- What holds of the leases a coroutine carries in front of its step. -/
structure Holding (d : Db) (items : List Carried) : Prop where
  owes : ∀ item ∈ items, Owes d item
  nodup : (items.map Carried.leaseId).Nodup
  fresh : ∀ leaseId, isActive d leaseId = true →
    d.settlements.get leaseId = none ∧ ∀ type ∈ settlementTypes, d.rows leaseId type = 0

theorem SharedOut.holding {r : Rental} (h : SharedOut r) (who : Nat) :
    Holding r.db (r.carried who) where
  owes := h.owes who
  nodup := h.nodup who
  fresh leaseId hactive := by
    obtain ⟨l, hget, hstate⟩ := isActive_iff.1 hactive
    exact h.fresh leaseId l hget (by rw [hstate]; decide)

namespace Holding

variable {d d' : Db} {items : List Carried}

theorem same (h : Holding d items) (hd : ∀ leaseId, SameLease d d' leaseId)
    (hacc : ∀ id ∈ d.accounts.keys, id ∈ d'.accounts.keys) : Advance d items d' items where
  same leaseId _ := hd leaseId
  owes item hitem := (h.owes item hitem).same (hd item.leaseId)
  nodup := h.nodup
  source _ hmem := Or.inl hmem
  dropped _ hmem hnot := absurd hmem hnot
  accounts := hacc

theorem stay (h : Holding d items) : Advance d items d items :=
  h.same (fun _ => .refl d _) fun _ hid => hid

/-- The coroutine completes a lease that is active. -/
theorem complete (h : Holding d items) {leaseId : String} (hactive : isActive d leaseId = true)
    (endedAt : Option ℚ) : Advance d items (d.apply (.setLeaseState leaseId .completed endedAt))
      (items ++ [unsettled leaseId]) := by
  obtain ⟨l, hget, -⟩ := isActive_iff.1 hactive
  obtain ⟨hnone, hrows⟩ := h.fresh leaseId hactive
  have hsame : ∀ leaseId', leaseId' ≠ leaseId →
      SameLease d (d.apply (.setLeaseState leaseId .completed endedAt)) leaseId' := fun leaseId' hne =>
    ⟨Table.get_modify_ne _ _ hne, fun _ => rfl, rfl⟩
  have hne : ∀ item ∈ items, item.leaseId ≠ leaseId := fun item hitem heq =>
    (h.owes item hitem).not_active (heq ▸ hactive)
  refine ⟨fun leaseId' hmem => ?_, fun item hitem => ?_, ?_, fun leaseId' hmem => ?_,
    fun leaseId' hmem hnot => ?_, fun id hid => hid⟩
  · rw [List.map_append, List.mem_append, not_or] at hmem
    exact hsame leaseId' fun heq => hmem.2 (heq ▸ List.mem_singleton_self _)
  · rcases List.mem_append.1 hitem with hitem | hitem
    · exact (h.owes item hitem).same (hsame _ (hne item hitem))
    · rw [List.mem_singleton.1 hitem]
      refine ⟨⟨_, (Table.get_modify_self d.leases leaseId _).trans (congrArg _ hget), rfl⟩,
        fun type htype => ?_, ?_⟩
      · change d.rows leaseId type + 1 = 1
        rw [hrows type htype]
      · change (d.settlements.get leaseId).isSome = false
        rw [hnone]
        rfl
  · rw [List.map_append]
    refine List.nodup_append.2 ⟨h.nodup, List.nodup_singleton _, fun a ha b hb heq => ?_⟩
    obtain ⟨item, hitem, rfl⟩ := List.mem_map.1 ha
    rw [List.map_singleton, List.mem_singleton] at hb
    exact hne item hitem (heq.trans hb)
  · rw [List.map_append, List.mem_append] at hmem
    rcases hmem with hmem | hmem
    · exact Or.inl hmem
    · rw [List.map_singleton, List.mem_singleton] at hmem
      exact Or.inr (hmem ▸ hactive)
  · rw [List.map_append] at hnot
    exact absurd (List.mem_append_left _ hmem) hnot

/-- The coroutine goes on with the settlement it carries in front. -/
theorem going {c c' : SettleCall} (h : Holding d (c.carried :: items))
    (hlease : c'.carried.leaseId = c.carried.leaseId) (owes : Owes d' c'.carried)
    (same : ∀ leaseId, leaseId ≠ c.carried.leaseId → SameLease d d' leaseId)
    (accounts : ∀ id ∈ d.accounts.keys, id ∈ d'.accounts.keys) :
    Advance d (c.carried :: items) d' (c'.carried :: items) := by
  have hids : (c'.carried :: items).map Carried.leaseId =
      (c.carried :: items).map Carried.leaseId := by
    rw [List.map_cons, List.map_cons, hlease]
  have hnodup := h.nodup
  rw [List.map_cons, List.nodup_cons] at hnodup
  refine ⟨fun leaseId hmem => ?_, fun item hitem => ?_, hids ▸ h.nodup,
    fun leaseId hmem => Or.inl (hids ▸ hmem), fun leaseId hmem hnot => absurd (hids ▸ hmem) hnot,
    accounts⟩
  · refine same leaseId fun heq => hmem ?_
    rw [hids, heq]
    exact List.mem_cons_self
  · rcases List.mem_cons.1 hitem with rfl | hitem
    · exact owes
    · refine (h.owes item (List.mem_cons_of_mem _ hitem)).same (same _ fun heq => hnodup.1 ?_)
      exact heq ▸ List.mem_map_of_mem hitem

/-- The settlement in front is over. -/
theorem finished {c : SettleCall} (h : Holding d (c.carried :: items))
    (once : SettledOnce d c.carried.leaseId) : Advance d (c.carried :: items) d items := by
  have hnodup := h.nodup
  rw [List.map_cons, List.nodup_cons] at hnodup
  refine ⟨fun leaseId _ => .refl d _, fun item hitem => h.owes item (List.mem_cons_of_mem _ hitem),
    hnodup.2, fun leaseId hmem => Or.inl (List.mem_cons_of_mem _ hmem),
    fun leaseId hmem hnot => ?_, fun id hid => hid⟩
  rw [List.map_cons] at hmem
  rcases List.mem_cons.1 hmem with rfl | hmem
  · exact once
  · exact absurd hmem hnot

end Holding

theorem same_commit (s : Store) (leaseId : String) : SameLease s.db s.commit.db leaseId := by
  rw [Store.db_commit]
  exact .refl _ _

theorem same_setWorkerState (s : Store) (who : Nat) (workerId state leaseId : String) :
    SameLease s.db (s.write who (.setWorkerState workerId state)).db leaseId := by
  rw [Store.db_write]
  exact ⟨rfl, fun _ => rfl, rfl⟩

/-- A handler's step. -/
theorem stop_advances {c : StopCall} {s : Store} (who : Nat) (now : ℚ) {signing : Signing}
    (lock : Option Nat) (h : Holding s.db c.carried) (htrack : c.OnTrack s.db)
    (hsound : c.sound signing s = true) :
    Advances s.db c.carried ((c.step who now signing lock s).1.rest.map .stop)
      (c.step who now signing lock s).2.2.db := by
  obtain ⟨leaseId, caller, pc⟩ := c
  cases pc with
  | get =>
    simp only [StopCall.step]
    cases s.db.leases.get leaseId with
    | none => exact ⟨h.stay, fun task htask => by cases htask⟩
    | some l =>
      dsimp only
      split_ifs
      · exact ⟨h.stay, fun task htask => by cases htask⟩
      · exact ⟨h.stay, fun task htask => by cases htask⟩
      · exact ⟨h.stay, fun task htask => by cases htask; trivial⟩
  | acquire =>
    cases lock with
    | none => exact ⟨h.stay, fun task htask => by cases htask; trivial⟩
    | some j => exact ⟨h.stay, fun task htask => by cases htask; trivial⟩
  | check =>
    simp only [StopCall.step]
    cases s.db.leases.get leaseId with
    | none => exact ⟨h.stay, fun task htask => by cases htask⟩
    | some l =>
      dsimp only
      split_ifs
      · exact ⟨h.stay, fun task htask => by cases htask⟩
      · exact ⟨h.stay, fun task htask => by cases htask; trivial⟩
  | complete lease =>
    refine ⟨?_, fun task htask => by cases htask; trivial⟩
    simp only [StopCall.step, Store.db_write]
    exact h.complete hsound (some now)
  | completeCommit lease =>
    refine ⟨h.same (same_commit s) fun id hid => ?_, fun task htask => by cases htask; trivial⟩
    simp only [StopCall.step, Store.db_commit]
    exact hid
  | free lease =>
    refine ⟨h.same (same_setWorkerState s who _ _) fun id hid => ?_,
      fun task htask => by cases htask; trivial⟩
    simp only [StopCall.step, Store.db_write]
    exact hid
  | freeCommit lease =>
    refine ⟨h.same (same_commit s) fun id hid => ?_, fun task htask => by cases htask; trivial⟩
    simp only [StopCall.step, Store.db_commit]
    exact hid
  | publish lease =>
    simp only [StopCall.step]
    simp only [StopCall.sound] at hsound
    cases hpublish : publishTask lease.workerId signing with
    | error e =>
      rw [hpublish] at hsound
      cases hsound
    | ok u => exact ⟨h.stay, fun task htask => by cases htask; trivial⟩
  | refetch =>
    obtain ⟨l, hget, -⟩ := (h.owes _ List.mem_cons_self).completed
    have hget' : s.db.leases.get leaseId = some l := hget
    simp only [StopCall.step, hget']
    exact ⟨h.stay, fun task htask => by cases htask; trivial⟩
  | settle sc =>
    have hsettling := settle_step who (h.owes _ List.mem_cons_self) htrack
      (of_decide_eq_true hsound)
    simp only [StopCall.step]
    generalize sc.step who s = r at hsettling ⊢
    cases hsettling with
    | going c' s' hlease owes onTrack same accounts =>
      exact ⟨h.going hlease owes same accounts, fun task htask => by cases htask; exact onTrack⟩
    | finished result s' hdb once =>
      refine ⟨?_, fun task htask => by cases htask⟩
      rw [hdb]
      exact h.finished once

theorem settleNext_carried {rest : List (Option LeaseInfo)} (h : ∀ o ∈ rest, o.isSome) (d : Db) :
    (WatchCall.settleNext rest).carried = unsettledAll rest ∧
      (WatchCall.settleNext rest).OnTrack d := by
  cases rest with
  | nil => exact ⟨rfl, trivial⟩
  | cons o rest =>
    cases o with
    | none => cases h none List.mem_cons_self
    | some lease => exact ⟨rfl, trivial, fun o ho => h o (List.mem_cons_of_mem _ ho)⟩

theorem completeNext_carried {done : List (Option LeaseInfo)} (h : ∀ o ∈ done, o.isSome)
    (rest : List LeaseInfo) (d : Db) :
    (WatchCall.completeNext done rest).carried = unsettledAll done ∧
      (WatchCall.completeNext done rest).OnTrack d := by
  cases rest with
  | nil => exact settleNext_carried h d
  | cons lease rest => exact ⟨rfl, h⟩

theorem unsettledAll_snoc (done : List (Option LeaseInfo)) (lease : LeaseInfo) :
    unsettledAll (done ++ [some lease]) = unsettledAll done ++ [unsettled lease.leaseId] := by
  unfold unsettledAll
  rw [List.filterMap_append, List.map_append]
  rfl

/-- A step that changes only where the watchdog is. -/
theorem Holding.moves {d : Db} {c c' : WatchCall} (h : Holding d c.carried)
    (hcarried : c'.carried = c.carried) (htrack : c'.OnTrack d) :
    Advances d c.carried (some (.watch c')) d where
  advance := by
    change Advance d c.carried d c'.carried
    rw [hcarried]
    exact h.stay
  onTrack task htask := by
    cases htask
    exact htrack

/-- A step of the watchdog. -/
theorem watch_advances {c : WatchCall} {s : Store} (who : Nat) (now : ℚ) {signing : Signing}
    (h : Holding s.db c.carried) (htrack : c.OnTrack s.db) (hsound : c.sound signing s = true) :
    Advances s.db c.carried (some (.watch (c.step who now signing s).1))
      (c.step who now signing s).2.db := by
  cases c with
  | asleep => exact h.moves rfl trivial
  | fetch cursor found =>
    obtain ⟨hcarried, hnext⟩ := @completeNext_carried [] (by simp) found s.db
    simp only [WatchCall.step]
    rcases cursor.fetchmany s.db with ⟨_ | ⟨leaseId, ids⟩, cursor'⟩
    · exact h.moves hcarried hnext
    · exact h.moves rfl trivial
  | get cursor ids found =>
    cases ids with
    | nil => exact h.moves rfl trivial
    | cons leaseId ids => cases ids <;> exact h.moves rfl trivial
  | complete done lease rest =>
    refine ⟨?_, fun task htask => by cases htask; exact htrack⟩
    simp only [WatchCall.step, Store.db_write]
    exact h.complete hsound (some now)
  | completeCommit done lease rest =>
    refine ⟨h.same (same_commit s) fun id hid => ?_, fun task htask => by cases htask; exact htrack⟩
    simp only [WatchCall.step, Store.db_commit]
    exact hid
  | free done lease rest =>
    refine ⟨h.same (same_setWorkerState s who _ _) fun id hid => ?_,
      fun task htask => by cases htask; exact htrack⟩
    simp only [WatchCall.step, Store.db_write]
    exact hid
  | freeCommit done lease rest =>
    refine ⟨h.same (same_commit s) fun id hid => ?_, fun task htask => by cases htask; exact htrack⟩
    simp only [WatchCall.step, Store.db_commit]
    exact hid
  | publish done lease rest =>
    simp only [WatchCall.step]
    simp only [WatchCall.sound] at hsound
    rcases hpublish : publishTask lease.workerId signing with (_ | message) | u
    · exact h.moves rfl htrack
    · rw [hpublish] at hsound
      cases hsound
    · exact h.moves rfl htrack
  | refetch done lease rest =>
    obtain ⟨l, hget, -⟩ := (h.owes _ (List.mem_append_right _ (List.mem_singleton_self _))).completed
    have hget' : s.db.leases.get lease.leaseId = some l := hget
    have hdone : ∀ o ∈ done ++ [some (leaseInfo lease.leaseId l now)], o.isSome := by
      intro o ho
      rcases List.mem_append.1 ho with ho | ho
      · exact htrack o ho
      · rw [List.mem_singleton.1 ho]
        rfl
    obtain ⟨hcarried, hnext⟩ := completeNext_carried hdone rest s.db
    rw [unsettledAll_snoc] at hcarried
    simp only [WatchCall.step, hget', Option.map_some]
    exact h.moves hcarried hnext
  | settle sc rest =>
    obtain ⟨hsc, hrest⟩ := htrack
    have hsettling := settle_step who (h.owes _ List.mem_cons_self) hsc (of_decide_eq_true hsound)
    simp only [WatchCall.step]
    generalize sc.step who s = r at hsettling ⊢
    cases hsettling with
    | going c' s' hlease owes onTrack same accounts =>
      exact ⟨h.going hlease owes same accounts,
        fun task htask => by cases htask; exact ⟨onTrack, hrest⟩⟩
    | finished result s' hdb once =>
      obtain ⟨hcarried, hnext⟩ := settleNext_carried hrest s'.db
      refine ⟨?_, fun task htask => by cases htask; exact hnext⟩
      change Advance s.db _ s'.db (WatchCall.settleNext rest).carried
      rw [hdb, hcarried]
      exact h.finished once

/-! ## Runs -/

theorem Rental.carried_of_task? {r : Rental} {who : Nat} {task : Task} (h : r.task? who = some task) :
    r.carried who = task.carried := by
  unfold Rental.carried
  rw [h]
  rfl

theorem Rental.task?_stop (r : Rental) (leaseId : String) (caller : Caller) (j : Nat) :
    (r.step (.stop leaseId caller)).task? j =
      if j = r.tasks.length then some (.stop ⟨leaseId, caller, .get⟩) else r.task? j :=
  join_snoc r.tasks (some (.stop ⟨leaseId, caller, .get⟩)) j

theorem SharedOut.stop {r : Rental} (h : SharedOut r) (leaseId : String) (caller : Caller) :
    SharedOut (r.step (.stop leaseId caller)) := by
  have hcarried : ∀ j, (r.step (.stop leaseId caller)).carried j = r.carried j := by
    intro j
    unfold Rental.carried
    rw [Rental.task?_stop]
    split_ifs with hj
    · rw [hj, Rental.task?, List.getElem?_eq_none le_rfl]
      rfl
    · rfl
  refine ⟨fun j => ?_, fun j => ?_, fun i j hij => ?_, fun j task hj => ?_,
    fun leaseId l hget hstate hnot => ?_, h.fresh⟩
  · rw [hcarried]
    exact h.owes j
  · rw [hcarried]
    exact h.nodup j
  · rw [hcarried, hcarried]
    exact h.apart i j hij
  · rw [Rental.task?_stop] at hj
    split_ifs at hj
    · cases hj
      trivial
    · exact h.onTrack j task hj
  · refine h.settled leaseId l hget hstate fun who item hitem => hnot who item ?_
    rw [hcarried]
    exact hitem

theorem SharedOut.step {r : Rental} (h : SharedOut r) {ev : RentalEvent} (hsound : r.sound ev = true) :
    SharedOut (r.step ev) := by
  cases ev with
  | stop leaseId caller => exact h.stop leaseId caller
  | step who now signing =>
    cases htask : r.task? who with
    | none =>
      simp only [Rental.step, htask]
      exact h
    | some task =>
      have hlt := lt_of_join htask
      have hholding := h.holding who
      have htrack := h.onTrack who task htask
      simp only [Rental.sound, htask, Option.all_some] at hsound
      rw [Rental.carried_of_task? htask] at hholding
      cases task with
      | stop c =>
        obtain ⟨hadv, hrest⟩ := stop_advances who now r.lock hholding htrack hsound
        simp only [Rental.step, htask]
        refine h.advance hlt rfl ?_ hrest
        rw [Rental.carried_of_task? htask]
        exact hadv
      | watch c =>
        obtain ⟨hadv, hrest⟩ := watch_advances who now hholding htrack hsound
        simp only [Rental.step, htask]
        refine h.advance hlt rfl ?_ hrest
        rw [Rental.carried_of_task? htask]
        exact hadv

/-- Leases as the server has stored them: the completed ones are settled once, the others have
no settlement and no rows of one. -/
structure Orderly (d : Db) : Prop where
  settled : ∀ leaseId l, d.leases.get leaseId = some l → l.state = .completed →
    SettledOnce d leaseId
  fresh : ∀ leaseId l, d.leases.get leaseId = some l → l.state ≠ .completed →
    d.settlements.get leaseId = none ∧ ∀ type ∈ settlementTypes, d.rows leaseId type = 0

theorem sharedOut_start {base : Db} (h : Orderly base) : SharedOut (.start base) := by
  have htask : ∀ who task, (Rental.start base).task? who = some task → task = .watch .asleep := by
    intro who task hwho
    rcases who with _ | who
    · cases hwho
      rfl
    · cases hwho
  have hcarried : ∀ who, (Rental.start base).carried who = [] := by
    intro who
    unfold Rental.carried
    cases hwho : (Rental.start base).task? who with
    | none => rfl
    | some task =>
      rw [htask who task hwho]
      rfl
  refine ⟨fun who => ?_, fun who => ?_, fun i j _ => ?_, fun who task hwho => ?_,
    fun leaseId l hget hstate _ => h.settled leaseId l hget hstate, h.fresh⟩
  · rw [hcarried]
    exact fun item hitem => by cases hitem
  · rw [hcarried]
    exact List.nodup_nil
  · rw [hcarried]
    exact fun a ha => by cases ha
  · rw [htask who task hwho]
    trivial

/-- Every completed lease is settled once. -/
def AllSettled (d : Db) : Prop := ∀ leaseId l, d.leases.get leaseId = some l →
  l.state = .completed → SettledOnce d leaseId

theorem Task.carried_of_not_inFlight {task : Task} (h : task.inFlight = false) :
    task.carried = [] := by
  cases task with
  | stop c => cases h
  | watch c =>
    cases c with
    | asleep => rfl
    | _ => cases h

theorem SharedOut.allSettled {r : Rental} (h : SharedOut r) (hquiet : r.Quiet) : AllSettled r.db := by
  intro leaseId l hget hstate
  refine h.settled leaseId l hget hstate fun who item hitem => ?_
  unfold Rental.carried at hitem
  cases htask : r.task? who with
  | none =>
    rw [htask] at hitem
    cases hitem
  | some task =>
    have hrest := hquiet _ (mem_of_join htask) task rfl
    rw [htask] at hitem
    change item ∈ task.carried at hitem
    rw [Task.carried_of_not_inFlight hrest] at hitem
    cases hitem

/-- In every run of stop handlers and the watchdog whose steps are sound, every completed lease
is settled once in every state without a coroutine in flight. -/
theorem leases_settled_once {base : Db} (hbase : Orderly base) {r : Rental}
    {ts : List (Trans Rental RentalEvent)}
    (hrun : Run (fun r ev r' => r' = r.step ev) (Rental.start base) ts r)
    (hsound : ∀ t ∈ ts, t.pre.sound t.ev = true) :
    ∀ r ∈ visited (Rental.start base) ts, r.Quiet → AllSettled r.db := by
  intro r hr
  apply SharedOut.allSettled
  refine (hrun.inv_of (I := SharedOut) (C := fun t => t.pre.sound t.ev = true) ?_
    (sharedOut_start hbase) hsound).1 r hr
  intro t (ht : t.post = t.pre.step t.ev) hI hC
  rw [ht]
  exact hI.step hC

/-- Two rented workers; the first lease has expired at 100. -/
def twoLeasesDb (workerId : String) : Db where
  accounts := ⟨[("consumer", 5000), ("rig-2", 0), (PLATFORM_ACCOUNT_ID, 0), ("rig-1", 0)],
    by decide⟩
  transactions := []
  leases := ⟨[("lease", ⟨workerId, "consumer", 60, 1 / 2, .active, 0, none, 0, 0, 0⟩),
    ("long", ⟨"rig-2", "consumer", 3600, 1 / 2, .active, 0, none, 0, 0, 0⟩)], by simp⟩
  workers := .empty
  settlements := .empty

theorem orderly_twoLeasesDb (workerId : String) : Orderly (twoLeasesDb workerId) := by
  have hrow : ∀ leaseId l, (twoLeasesDb workerId).leases.get leaseId = some l → l.state = .active := by
    intro leaseId l hget
    have hmem := Table.mem_rows_iff.2 hget
    simp only [twoLeasesDb, List.mem_cons, List.not_mem_nil, or_false, Prod.mk.injEq] at hmem
    rcases hmem with ⟨-, rfl⟩ | ⟨-, rfl⟩ <;> rfl
  refine ⟨fun leaseId l hget hstate => ?_, fun leaseId l _ _ => ⟨rfl, fun type _ => rfl⟩⟩
  rw [hrow leaseId l hget] at hstate
  cases hstate

/-- The steps of these coroutines at a time, with a secret. -/
def steps (now : ℚ) (whos : List Nat) : List RentalEvent := whos.map fun who => .step who now (.ok ())

/-- The watchdog on the first lease, a handler on the second; the handler's settlement begins
between the two commits of the watchdog's. -/
def sideBySide : List RentalEvent :=
  .stop "long" ⟨false, "consumer"⟩ ::
    steps 100 [0, 1, 0, 1, 0, 1, 0, 1, 0, 1, 0, 1, 0, 1, 0, 1, 0, 1, 0, 0, 0, 0, 0, 0, 0, 0, 0, 0,
      1, 0, 0, 1, 1, 1, 1, 1, 1, 1, 1, 1, 1]

theorem leases_settled_once_sideBySide :
    AllSettled (sideBySide.foldl Rental.step (.start (twoLeasesDb "rig-1"))).db := by
  have hrun := Run.trace Rental.step (.start (twoLeasesDb "rig-1")) sideBySide
  refine leases_settled_once (orderly_twoLeasesDb "rig-1") hrun ?_ _ hrun.mem_visited ?_
  · decide +kernel
  · decide +kernel

/-- A handler has checked the lease that the watchdog completes and settles. -/
def raced : Rental :=
  (.stop "lease" ⟨false, "consumer"⟩ :: steps 100 ([1, 1, 1] ++ List.replicate 21 0 ++
    List.replicate 16 1)).foldl Rental.step (.start (twoLeasesDb "rig-1"))

/-- The worker's id cannot be published to. -/
def unpublished : Rental :=
  (steps 100 (List.replicate 9 0)).foldl Rental.step (.start (twoLeasesDb "rig 1"))

/-- A settlement begins while another handler's `UPDATE` is open. -/
def refused : Rental :=
  (.stop "lease" ⟨false, "consumer"⟩ :: .stop "long" ⟨true, ""⟩ ::
    steps 100 (List.replicate 9 1 ++ [2, 2, 2, 2, 1, 1] ++ List.replicate 16 2)).foldl Rental.step
      (.start (twoLeasesDb "rig-1"))

theorem leases_not_settled_once :
    (∀ r ∈ [raced, unpublished, refused], r.Quiet) ∧
      ∀ r ∈ [raced, unpublished, refused], ¬ AllSettled r.db := by
  refine ⟨by decide +kernel, fun r hr h => ?_⟩
  have hbad : ∀ r ∈ [raced, unpublished, refused],
      (r.db.leases.get "lease").any (fun l => l.state = .completed) = true ∧
        ((r.db.settlements.get "lease").isNone = true ∨ r.db.rows "lease" .leaseCharge = 2) := by
    decide +kernel
  obtain ⟨hcompleted, hwrong⟩ := hbad r hr
  obtain ⟨l, hget, hstate⟩ := (Option.any_eq_true _ _).1 hcompleted
  obtain ⟨hrecorded, hrows⟩ := h "lease" l hget (of_decide_eq_true hstate)
  rcases hwrong with hnone | htwo
  · rw [Option.isNone_iff_eq_none] at hnone
    rw [hnone] at hrecorded
    cases hrecorded
  · rw [hrows .leaseCharge List.mem_cons_self] at htwo
    cases htwo

end TreeMiner.Server
