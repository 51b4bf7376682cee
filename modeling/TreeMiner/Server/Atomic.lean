import TreeMiner.Server.Isolation

/-! One settlement among other repository operations on the connection: its six statements
are all in what is committed or none is, and its `ROLLBACK` takes back its own writes only,
as long as it is isolated. -/

namespace TreeMiner.Server

open Lib

/-! ## The settlement's statements in a log -/

/-- What the settlement, coroutine 0, has in a log of its transaction's statements. -/
def moved (log : List Entry) : List Write :=
  (log.filter fun e => e.who = 0 ∧ e.write.account.isSome).map Entry.write

/-- Every such statement finds its account. -/
def Found : Db → List Entry → Prop
  | _, [] => True
  | d, e :: log => (e.who = 0 → e.write.account.isSome → d.Finds e.write) ∧ Found (d.apply e.write) log

theorem moved_append (l l' : List Entry) : moved (l ++ l') = moved l ++ moved l' := by
  unfold moved
  rw [List.filter_append, List.map_append]

theorem moved_other {who : Nat} (h : who ≠ 0) (w : Write) : moved [⟨who, w⟩] = [] := by
  simp [moved, h]

theorem moved_own {w : Write} (h : w.account.isSome) : moved [⟨0, w⟩] = [w] := by
  simp [moved, h]

theorem moved_view (c : Connection Entry) :
    moved c.view = moved c.committed ++ moved (c.opened.getD []) := moved_append _ _

theorem found_append (d : Db) (l l' : List Entry) :
    Found d (l ++ l') ↔ Found d l ∧ Found (replay d l) l' := by
  induction l generalizing d with
  | nil => simp [Found, replay]
  | cons e l ih =>
    rw [List.cons_append, Found, Found, ih, and_assoc]
    rfl

theorem found_of_moved {d : Db} {log : List Entry} (h : moved log = []) : Found d log := by
  induction log generalizing d with
  | nil => trivial
  | cons e log ih =>
    rw [moved, List.map_eq_nil_iff, List.filter_cons] at h
    split_ifs at h with he
    refine ⟨fun hwho haccount => absurd ?_ he, ih (List.map_eq_nil_iff.2 h)⟩
    simp [hwho, haccount]

theorem found_other {d : Db} {who : Nat} (h : who ≠ 0) (w : Write) : Found d [⟨who, w⟩] :=
  ⟨fun h0 => absurd h0 h, trivial⟩

theorem found_own {d : Db} {w : Write} (h : d.Finds w) : Found d [⟨0, w⟩] :=
  ⟨fun _ _ => h, trivial⟩

/-! ## The phases of the settlement -/

/-- What the lease costs at its price. -/
def LeaseInfo.cost (lease : LeaseInfo) : ℚ := (settleLease lease).totalCost

/-- All of the settlement, with nothing of it still in an open transaction. -/
structure Whole (lease : LeaseInfo) (s : Store) : Prop where
  all : ∃ balance, moved s.conn.view = statements lease (charge lease.cost balance)
  found : Found s.base s.conn.view
  closed : moved (s.conn.opened.getD []) = []

/-- What is true of the store by the state of the settlement's coroutine. A settlement in
its transaction either finds its accounts or has the connection for itself. -/
inductive Phase (lease : LeaseInfo) (s : Store) : Option Call → Prop
  | start (none_moved : moved s.conn.view = []) : Phase lease s (some (.settle (settleLease lease)))
  | select (provided : Provided s.db lease) (none_moved : moved s.conn.view = []) :
    Phase lease s (some (.settle ⟨lease, lease.cost, .select⟩))
  | exec (balance : ℚ) (todo : List Write) (provided : Provided s.db lease)
      (split : moved s.conn.view ++ todo = statements lease (charge lease.cost balance))
      (found : Found s.base s.conn.view) :
    Phase lease s (some (.settle ⟨lease, charge lease.cost balance, .exec todo⟩))
  | alone (c : SettleCall) (hlease : c.lease = lease) (missing : Missing s c)
      (mine : ∀ e ∈ s.conn.opened.getD [], e.who = 0) (none_moved : moved s.conn.committed = []) :
    Phase lease s (some (.settle c))
  | record (c : SettleCall) (hlease : c.lease = lease) (hpc : c.pc = .record ∨ c.pc = .recordCommit)
      (whole : Whole lease s) : Phase lease s (some (.settle c))
  | ended (result : moved s.conn.view = [] ∨ Whole lease s)
      (closed : moved (s.conn.opened.getD []) = []) : Phase lease s none

section Touched

variable {who : Nat} {s s' : Store} (h : s.Touched who s') (hwho : who ≠ 0)

include h hwho

theorem Store.Touched.moved_view : moved s'.conn.view = moved s.conn.view := by
  cases h with
  | same => rfl
  | enter => rfl
  | write w =>
    change moved (s.conn.write ⟨who, w⟩).view = _
    rw [Connection.view_write, moved_append, moved_other hwho, List.append_nil]
  | commit => exact congrArg moved (Connection.view_commit s.conn)

theorem Store.Touched.found (hf : Found s.base s.conn.view) : Found s'.base s'.conn.view := by
  cases h with
  | same => exact hf
  | enter => exact hf
  | write w =>
    change Found s.base (s.conn.write ⟨who, w⟩).view
    rw [Connection.view_write, found_append]
    exact ⟨hf, found_other hwho w⟩
  | commit =>
    change Found s.base s.conn.commit.view
    rwa [Connection.view_commit]

theorem Store.Touched.closed (hc : moved (s.conn.opened.getD []) = []) :
    moved (s'.conn.opened.getD []) = [] := by
  cases h with
  | same => exact hc
  | enter => exact hc
  | write w =>
    change moved (s.conn.opened.getD [] ++ [⟨who, w⟩]) = []
    rw [moved_append, hc, moved_other hwho, List.append_nil]
  | commit => rfl

omit hwho in
theorem Store.Touched.provided {lease : LeaseInfo} (hp : Provided s.db lease) :
    Provided s'.db lease := by
  cases h with
  | same => exact hp
  | enter => exact hp
  | write w =>
    rw [Store.db_write]
    exact hp.apply w
  | commit =>
    rw [Store.db_commit]
    exact hp

theorem Whole.touched {lease : LeaseInfo} (hw : Whole lease s) : Whole lease s' where
  all := by
    obtain ⟨balance, hall⟩ := hw.all
    exact ⟨balance, (h.moved_view hwho).trans hall⟩
  found := h.found hwho hw.found
  closed := h.closed hwho hw.closed

/-- Another coroutine keeps the phase, if it touches nothing while the settlement is alone. -/
theorem Phase.touched {lease : LeaseInfo} {o : Option Call} (hp : Phase lease s o)
    (halone : s' = s ∨ ∀ c, o = some (.settle c) → c.inTransaction = true → Provided s.db c.lease) :
    Phase lease s' o := by
  rcases halone with rfl | halone
  · exact hp
  cases hp with
  | start none_moved => exact .start ((h.moved_view hwho).trans none_moved)
  | select provided none_moved =>
    exact .select (h.provided provided) ((h.moved_view hwho).trans none_moved)
  | exec balance todo provided split found =>
    refine .exec balance todo (h.provided provided) ?_ (h.found hwho found)
    rw [h.moved_view hwho]
    exact split
  | alone c hlease missing => exact absurd (halone c rfl missing.inside) missing.unprovided
  | record c hlease hpc whole => exact .record c hlease hpc (whole.touched h hwho)
  | ended result closed =>
    refine .ended ?_ (h.closed hwho closed)
    rcases result with hnone | hwhole
    · exact Or.inl ((h.moved_view hwho).trans hnone)
    · exact Or.inr (hwhole.touched h hwho)

end Touched

/-! ## The settlement's own steps -/

/-- The outcome of a step of the settlement. -/
structure Kept (lease : LeaseInfo) (s : Store) (r : Turn SettleCall (Option Settlement) × Store) :
    Prop where
  phase : Phase lease r.2 (r.1.rest.map .settle)
  undone : ∀ u ∈ r.2.undone, u ∈ s.undone ∨ u.2.who = u.1

theorem kept_begin {lease : LeaseInfo} {s : Store} (hnone : moved s.conn.view = [])
    (h : s.conn.opened = none) : Kept lease s ((settleLease lease).step 0 s) := by
  rw [Connection.view_of_none h] at hnone
  rw [settleLease, SettleCall.step_begin 0 h]
  refine ⟨?_, fun u hu => Or.inl hu⟩
  by_cases hp : Provided s.db lease
  · have hbegun : moved s.begun.conn.view = [] := (congrArg moved (List.append_nil _)).trans hnone
    exact .select (Store.db_begun h ▸ hp) hbegun
  · exact .alone _ rfl (.begun h hp _) (fun e he => by cases he) hnone

theorem kept_exec {lease : LeaseInfo} {s : Store} {balance : ℚ} {todo : List Write}
    (provided : Provided s.db lease)
    (split : moved s.conn.view ++ todo = statements lease (charge lease.cost balance))
    (found : Found s.base s.conn.view) :
    Kept lease s (SettleCall.step 0 ⟨lease, charge lease.cost balance, .exec todo⟩ s) := by
  cases todo with
  | nil =>
    refine ⟨.record _ rfl (Or.inl rfl) ⟨⟨balance, ?_⟩, ?_, rfl⟩, fun u hu => Or.inl hu⟩
    · rw [List.append_nil] at split
      exact (congrArg moved (Connection.view_commit s.conn)).trans split
    · change Found s.base s.conn.commit.view
      rwa [Connection.view_commit]
  | cons w todo =>
    have hmem : w ∈ statements lease (charge lease.cost balance) := by
      rw [← split]
      exact List.mem_append_right _ List.mem_cons_self
    have hfinds := finds_statements provided _ w hmem
    have haccount : w.account.isSome := by
      obtain ⟨id, hid, -⟩ := statements_account hmem
      exact Option.isSome_iff_exists.2 ⟨id, hid⟩
    rw [SettleCall.step_exec 0 (Db.not_rejects_of_finds hfinds)]
    refine ⟨.exec balance todo ?_ ?_ ?_, fun u hu => Or.inl hu⟩
    · rw [Store.db_write]
      exact provided.apply w
    · change moved (s.conn.write ⟨0, w⟩).view ++ todo = _
      rw [Connection.view_write, moved_append, moved_own haccount, List.append_assoc]
      exact split
    · change Found s.base (s.conn.write ⟨0, w⟩).view
      rw [Connection.view_write, found_append]
      exact ⟨found, found_own hfinds⟩

theorem kept_alone {lease : LeaseInfo} {s : Store} {c : SettleCall} (hlease : c.lease = lease)
    (missing : Missing s c) (mine : ∀ e ∈ s.conn.opened.getD [], e.who = 0)
    (none_moved : moved s.conn.committed = []) : Kept lease s (c.step 0 s) := by
  rcases missing.step 0 with ⟨c', s', hstep, hc', hmissing, hinside⟩ | hstep
  · obtain ⟨l, hopened, hl⟩ := hinside.own
    rw [hstep]
    refine ⟨.alone c' (hc'.trans hlease) hmissing ?_ (hinside.committed ▸ none_moved), ?_⟩
    · rw [hopened]
      intro e he
      exact (List.mem_append.1 he).elim (mine e) (hl e)
    · rw [hinside.undone]
      exact fun u hu => Or.inl hu
  · rw [hstep]
    refine ⟨.ended (Or.inl ?_) rfl, fun u hu => ?_⟩
    · exact (congrArg moved (List.append_nil _)).trans none_moved
    · rcases List.mem_append.1 hu with hu | hu
      · exact Or.inl hu
      · obtain ⟨e, he, rfl⟩ := List.mem_map.1 hu
        exact Or.inr (mine e he)

theorem kept_record {lease : LeaseInfo} {s : Store} {c : SettleCall} (hlease : c.lease = lease)
    (hpc : c.pc = .record ∨ c.pc = .recordCommit) (whole : Whole lease s) :
    Kept lease s (c.step 0 s) := by
  obtain ⟨⟨balance, hall⟩, hfound, hclosed⟩ := whole
  rcases hpc with hpc | hpc
  · have hother : moved [⟨0, .insertSettlement c.lease.leaseId c.settlement⟩] = [] := rfl
    simp only [SettleCall.step, hpc]
    unfold Store.execute
    split_ifs with hr
    · exact ⟨.ended (Or.inr ⟨⟨balance, hall⟩, hfound, hclosed⟩) hclosed, fun u hu => Or.inl hu⟩
    · refine ⟨.record _ hlease (Or.inr rfl) ⟨⟨balance, ?_⟩, ?_, ?_⟩, fun u hu => Or.inl hu⟩
      · change moved (s.conn.write _).view = _
        rw [Connection.view_write, moved_append, hother, List.append_nil]
        exact hall
      · change Found s.base (s.conn.write _).view
        rw [Connection.view_write, found_append]
        exact ⟨hfound, fun _ h => (by cases h), trivial⟩
      · change moved (s.conn.opened.getD [] ++ [_]) = []
        rw [moved_append, hclosed, hother]
        rfl
  · simp only [SettleCall.step, hpc]
    refine ⟨.ended (Or.inr ⟨⟨balance, ?_⟩, ?_, rfl⟩) rfl, fun u hu => Or.inl hu⟩
    · exact (congrArg moved (Connection.view_commit s.conn)).trans hall
    · change Found s.base s.conn.commit.view
      rwa [Connection.view_commit]

/-- One step of the settlement, which begins when no transaction is open. -/
theorem Phase.step {lease : LeaseInfo} {s : Store} {c : SettleCall}
    (hp : Phase lease s (some (.settle c))) (hbegin : c.begins → s.conn.opened = none) :
    Kept lease s (c.step 0 s) := by
  cases hp with
  | start none_moved => exact kept_begin none_moved (hbegin rfl)
  | select provided none_moved =>
    obtain ⟨balance, -, hstep⟩ := SettleCall.step_select_some 0 lease.cost
      (provided lease.consumerId List.mem_cons_self)
    rw [hstep]
    refine ⟨.exec balance _ provided ?_ ?_, fun u hu => Or.inl hu⟩
    · rw [none_moved]
      rfl
    · exact found_of_moved none_moved
  | exec balance todo provided split found => exact kept_exec provided split found
  | alone c hlease missing mine none_moved => exact kept_alone hlease missing mine none_moved
  | record c hlease hpc whole => exact kept_record hlease hpc whole

/-! ## Runs -/

/-- Once the settlement has ended, its statements are all committed, each on an account that
is there, or none is, and none is in a transaction still open. What a `ROLLBACK` took back
was written by the coroutine that executed it. -/
structure Atomic (lease : LeaseInfo) (b : Bank) : Prop where
  whole : b.call? 0 = none →
    (moved b.store.conn.committed = [] ∨
      (∃ balance, moved b.store.conn.committed = statements lease (charge lease.cost balance)) ∧
        Found b.store.base b.store.conn.committed) ∧
      moved (b.store.conn.opened.getD []) = []
  own : ∀ u ∈ b.store.undone, u.2.who = u.1

def Event.settles : Event → Bool
  | .request (.settleLease _) => true
  | _ => false

/-- The invariant of the runs: coroutine 0 is the one settlement. -/
structure OneSettlement (lease : LeaseInfo) (b : Bank) : Prop where
  phase : Phase lease b.store (b.call? 0)
  called : 0 < b.calls.length
  others : ∀ j c, j ≠ 0 → b.call? j = some c → c.isSettle = false
  own : ∀ u ∈ b.store.undone, u.2.who = u.1

theorem Phase.settle {lease : LeaseInfo} {s : Store} {c : Call} (h : Phase lease s (some c)) :
    ∃ sc, c = .settle sc := by
  cases h <;> exact ⟨_, rfl⟩

theorem OneSettlement.atomic {lease : LeaseInfo} {b : Bank} (h : OneSettlement lease b) :
    Atomic lease b where
  whole hended := by
    have hphase := h.phase
    rw [hended] at hphase
    cases hphase with
    | ended result closed =>
      refine ⟨?_, closed⟩
      rcases result with hnone | ⟨⟨balance, hall⟩, hfound, -⟩
      · rw [moved_view, closed, List.append_nil] at hnone
        exact Or.inl hnone
      · rw [moved_view, closed, List.append_nil] at hall
        exact Or.inr ⟨⟨balance, hall⟩, ((found_append _ _ _).1 hfound).1⟩
  own := h.own

theorem Request.call_isSettle {r : Request} (h : (Event.request r).settles = false) :
    r.call.isSettle = false := by
  cases r <;> first | rfl | cases h

theorem OneSettlement.request {lease : LeaseInfo} {b : Bank} (h : OneSettlement lease b)
    {r : Request} (hr : (Event.request r).settles = false) :
    OneSettlement lease (b.step (.request r)) where
  phase := by
    rw [Bank.call?_request, if_neg h.called.ne]
    exact h.phase
  called := by
    change 0 < (b.calls ++ [some r.call]).length
    rw [List.length_append]
    exact Nat.add_pos_left h.called _
  others j c hj hc := by
    rw [Bank.call?_request] at hc
    split_ifs at hc
    · cases hc
      exact Request.call_isSettle hr
    · exact h.others j c hj hc
  own := h.own

/-- A live coroutine's step, from what it does to the settlement. -/
theorem OneSettlement.set {lease : LeaseInfo} {b b' : Bank} (h : OneSettlement lease b) {who : Nat}
    {o : Option Call} (hwho : who < b.calls.length) (hcalls : b'.calls = b.calls.set who o)
    (hphase : Phase lease b'.store (b'.call? 0))
    (hsettle : who ≠ 0 → ∀ c, o = some c → c.isSettle = false)
    (hundone : ∀ u ∈ b'.store.undone, u ∈ b.store.undone ∨ u.2.who = u.1) :
    OneSettlement lease b' where
  phase := hphase
  called := by
    rw [hcalls, List.length_set]
    exact h.called
  others j c hj hc := by
    rw [Bank.call?_set hwho hcalls] at hc
    split_ifs at hc with heq
    · exact hsettle (heq ▸ hj) c hc
    · exact h.others j c hj hc
  own u hu := (hundone u hu).elim (h.own u) id

theorem Call.rest_isSettle {c : Call} (h : c.isSettle = false) (who : Nat) (now : ℚ) (s : Store)
    {c' : Call} (hc' : (c.step who now s).1.rest = some c') : c'.isSettle = false := by
  cases c with
  | settle c => cases h
  | _ =>
    simp only [Call.step, Turn.rest_map, Option.map_eq_some_iff] at hc'
    obtain ⟨_, -, rfl⟩ := hc'
    rfl

theorem OneSettlement.step {lease : LeaseInfo} {b : Bank} {ev : Event}
    (h : OneSettlement lease b) (hone : ev.settles = false) (hiso : b.Isolated ev) :
    OneSettlement lease (b.step ev) := by
  cases ev with
  | request r => exact h.request hone
  | step who now =>
    cases hc : b.call? who with
    | none =>
      rw [Bank.step_idle hc]
      exact h
    | some c =>
      have hlt := lt_of_join hc
      obtain ⟨hstore, hcalls, -⟩ := Bank.step_live hc now
      have hcall := Bank.call?_set hlt hcalls 0
      by_cases hwho : who = 0
      · subst hwho
        have hphase := h.phase
        rw [hc] at hphase
        obtain ⟨sc, rfl⟩ := hphase.settle
        obtain ⟨hkept, hundone⟩ := hphase.step (hiso _ hc).1
        refine h.set hlt hcalls ?_ (fun h0 => absurd rfl h0) ?_
        · rw [hcall, if_pos rfl, hstore]
          simpa only [Call.step, Turn.rest_map] using hkept
        · rw [hstore]
          exact hundone
      · have hns := h.others who c hwho hc
        have htouched := Call.step_touched hns who now b.store
        refine h.set hlt hcalls ?_ (fun _ c' hc' => Call.rest_isSettle hns who now b.store hc') ?_
        · rw [hcall, if_neg (Ne.symm hwho), hstore]
          refine h.phase.touched htouched hwho ?_
          by_cases ht : c.touches = true
          · exact Or.inr fun sc hsc hin => hiso.provided hc ht (Ne.symm hwho) hsc hin
          · exact Or.inl (Call.step_of_not_touches (Bool.not_eq_true _ ▸ ht) who now b.store)
        · rw [hstore, htouched.base.2]
          exact fun u hu => Or.inl hu

/-- In every run of one settlement and any other operations whose steps leave it isolated,
it is atomic in every state. -/
theorem settlement_atomic {base : Db} {lease : LeaseInfo} {b : Bank} {ts : List (Trans Bank Event)}
    (hrun : Run (fun b ev b' => b' = b.step ev)
      ((Bank.start base).step (.request (.settleLease lease))) ts b)
    (hone : ∀ t ∈ ts, t.ev.settles = false) (hiso : ∀ t ∈ ts, t.pre.Isolated t.ev) :
    ∀ b ∈ visited ((Bank.start base).step (.request (.settleLease lease))) ts, Atomic lease b := by
  intro b hb
  have hstart : OneSettlement lease ((Bank.start base).step (.request (.settleLease lease))) := by
    refine ⟨.start rfl, Nat.one_pos, fun j c hj hc => ?_, fun u hu => ?_⟩
    · rw [Bank.call?_request, if_neg (by exact hj)] at hc
      cases hc
    · cases hu
  refine ((hrun.inv_of (I := OneSettlement lease)
    (C := fun t => t.ev.settles = false ∧ t.pre.Isolated t.ev) ?_ hstart fun t ht =>
      ⟨hone t ht, hiso t ht⟩).1 b hb).atomic
  intro t (ht : t.post = t.pre.step t.ev) hI ⟨h1, h2⟩
  rw [ht]
  exact hI.step h1 h2

/-- A heartbeat's statement between those of the settlement, and its commit after them. -/
def beatsBetween : List Event :=
  [.request (.updateHeartbeat "worker" 5 1), .step 0 60, .step 0 60, .step 1 61, .step 0 61,
    .step 1 61, .step 0 61, .step 0 61, .step 0 61, .step 0 61, .step 0 61, .step 0 61, .step 1 61,
    .step 0 61, .step 0 61]

theorem settlement_atomic_between_beats :
    Atomic rentedLease (beatsBetween.foldl Bank.step
      ((Bank.start rentedDb).step (.request (.settleLease rentedLease)))) := by
  have hrun := Run.trace Bank.step ((Bank.start rentedDb).step (.request (.settleLease rentedLease)))
    beatsBetween
  refine settlement_atomic hrun ?_ ?_ _ ?_
  · decide +kernel
  · decide +kernel
  · exact hrun.mem_visited

/-- The consumer is there, the worker's account is not. -/
def unprovidedDb : Db :=
  { rentedDb with accounts := ⟨[("consumer", 100), (PLATFORM_ACCOUNT_ID, 0)], by decide⟩ }

/-- The `UPDATE` of a heartbeat is open when the settlement begins: the refused `BEGIN` leads
to a `ROLLBACK` of it. -/
def beatOpen : List Event :=
  [.request (.updateHeartbeat "worker" 5 1), .step 1 60, .step 1 60, .step 0 60, .step 0 60]

/-- A heartbeat commits between the debit of the consumer and the row that is rejected. -/
def beatCommits : List Event :=
  [.request (.updateHeartbeat "worker" 5 1), .step 0 60, .step 0 60, .step 0 60, .step 1 60,
    .step 1 60, .step 1 60, .step 0 60, .step 0 60, .step 0 60, .step 0 60, .step 0 60]

theorem settlement_not_atomic :
    ¬ Atomic rentedLease (beatOpen.foldl Bank.step
        ((Bank.start rentedDb).step (.request (.settleLease rentedLease)))) ∧
      ¬ Atomic rentedLease (beatCommits.foldl Bank.step
        ((Bank.start unprovidedDb).step (.request (.settleLease rentedLease)))) := by
  constructor
  · intro h
    have hundone : ∃ u ∈ (beatOpen.foldl Bank.step ((Bank.start rentedDb).step
        (.request (.settleLease rentedLease)))).store.undone, u.2.who ≠ u.1 := by
      decide +kernel
    obtain ⟨u, hu, hne⟩ := hundone
    exact hne (h.own u hu)
  · intro h
    have hended : (beatCommits.foldl Bank.step ((Bank.start unprovidedDb).step
        (.request (.settleLease rentedLease)))).call? 0 = none := by
      decide +kernel
    have hdebit : moved (beatCommits.foldl Bank.step ((Bank.start unprovidedDb).step
        (.request (.settleLease rentedLease)))).store.conn.committed =
          [.addBalance "consumer" (-30)] := by
      decide +kernel
    rcases (h.whole hended).1 with hnone | ⟨⟨balance, hall⟩, -⟩
    · rw [hdebit] at hnone
      cases hnone
    · rw [hdebit] at hall
      have hlength : 1 = 6 := congrArg List.length hall
      omega

end TreeMiner.Server
