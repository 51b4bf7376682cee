import Mathlib.Tactic.NormNum
import TreeMiner.Server.Store
import TreeMiner.Server.Wallets

/-! The earnings of a wallet as the server shows them: live, on the provider's dashboard, and
summed up from the snapshots that are taken of every address. -/

namespace TreeMiner.Server

open Lib

/-! ## Rounding -/

/-- A half goes to the even neighbour. -/
def roundHalfEven (q : ℚ) : ℤ :=
  let rest := q - q.floor
  if rest < 1 / 2 then q.floor
  else if 1 / 2 < rest then q.floor + 1
  else if q.floor % 2 = 0 then q.floor
  else q.floor + 1

/-- `round(q, digits)` -/
def roundTo (digits : Nat) (q : ℚ) : ℚ := roundHalfEven (q * 10 ^ digits) / 10 ^ digits

/-- An exact multiple of 0.0001. -/
def IsExact (q : ℚ) : Prop := ∃ n : ℤ, q = n / 10 ^ 4

/-! ## Settlements -/

inductive Field
  | text (s : String)
  | number (q : ℚ)
deriving DecidableEq

/-- A `dict` of a row. -/
abbrev Row := List (String × Field)

namespace Row

/-- `row.get(key, 0)`, of a number. -/
def number (row : Row) (key : String) : ℚ :=
  match row.lookup key with
  | some (.number q) => q
  | _ => 0

/-- `row.get(key, "")`, of a text. -/
def text (row : Row) (key : String) : String :=
  match row.lookup key with
  | some (.text s) => s
  | _ => ""

end Row

/-- What `SettlementRepo` makes of a row. -/
def settlementRow (leaseId : String) (s : Settlement) : Row :=
  [("lease_id", .text leaseId), ("consumer_id", .text s.consumerId),
    ("worker_id", .text s.workerId), ("duration_sec", .number (roundTo 2 s.durationSec)),
    ("blocks_found", .number s.blocksFound), ("total_cost", .number (roundTo 4 s.totalCost)),
    ("provider_payment", .number (roundTo 4 s.providerPayout)),
    ("platform_fee", .number (roundTo 4 s.platformFee))]

/-- `SettlementRepo.list_all`, the newest first. -/
def listSettlements (settlements : Table String Settlement) : List Row :=
  settlements.rows.reverse.map fun row => settlementRow row.1 row.2

/-! ## The database -/

/-- What the views read of a row of `workers`. -/
structure MinerRow where
  ethAddress : String
  gpuCount : Nat
  hashrate : ℚ
  lastHeartbeat : ℚ
  selfBlocksFound : Nat
deriving DecidableEq

structure WalletSnapshot where
  ethAddress : String
  timestamp : ℚ
  intervalType : String
  totalHashrate : ℚ
  onlineWorkers : Nat
  totalWorkers : Nat
  blocksFound : Nat
  cumulativeBlocks : Nat
  earnings : ℚ
deriving DecidableEq

/-- The tables of the views, and what the snapshot service keeps of the blocks of an address. -/
structure EarningsDb where
  workers : Table String MinerRow
  leases : Table String Lease
  accounts : Accounts
  settlements : Table String Settlement
  snapshots : List WalletSnapshot
  lastBlocks : Table String Nat

def OFFLINE_THRESHOLD : ℚ := 90

def online (now : ℚ) (workers : List (String × MinerRow)) : List (String × MinerRow) :=
  workers.filter fun w => now - w.2.lastHeartbeat < OFFLINE_THRESHOLD

def hashrateOf (workers : List (String × MinerRow)) : ℚ := (workers.map fun w => w.2.hashrate).sum

def blocksOf (workers : List (String × MinerRow)) : Nat :=
  (workers.map fun w => w.2.selfBlocksFound).sum

/-- The sum of a number over the settlements of workers. -/
def sumOf (key : String) (settlements : List Row) (workers : List (String × MinerRow)) : ℚ :=
  ((settlements.filter fun s => s.text "worker_id" ∈ workers.map Prod.fst).map
    (·.number key)).sum

section Views

-- Python's `str.lower`
variable (strLower : String → String)

namespace EarningsDb

variable (d : EarningsDb)

def myWorkers (address : String) : List (String × MinerRow) :=
  d.workers.rows.filter fun w => strLower w.2.ethAddress = strLower address

/-! ## `/api/wallet/stats` -/

structure WalletStats where
  address : String
  onlineWorkers : Nat
  totalWorkers : Nat
  totalHashrate : ℚ
  totalGpus : Nat
  totalBlocks : Nat
  totalEarnings : ℚ

def walletStats (address : String) (now : ℚ) : WalletStats :=
  let workers := d.myWorkers strLower address
  { address
    onlineWorkers := (online now workers).length
    totalWorkers := workers.length
    totalHashrate := roundTo 2 (hashrateOf (online now workers))
    totalGpus := (workers.map fun w => w.2.gpuCount).sum
    totalBlocks := blocksOf workers
    totalEarnings := roundTo 4 (sumOf "provider_payout" (listSettlements d.settlements) workers) }

/-! ## `/api/provider/dashboard` -/

structure ProviderDashboard where
  providerId : String
  workerCount : Nat
  totalEarned : ℚ
  activeLeases : Nat
  totalBlocksMined : Nat
  avgHashrate : ℚ

/-- `_resolve_provider_workers` -/
def resolveProviderWorkers (providerId : String) : List (String × MinerRow) :=
  if ['0', 'x'].isPrefixOf providerId.toList then d.myWorkers strLower providerId
  else
    match d.workers.rows.filter fun w => w.1 = providerId with
    | [] =>
      match d.accounts.get providerId with
      | some acct =>
        if acct.ethAddress = "" then []
        else d.workers.rows.filter fun w => w.2.ethAddress = acct.ethAddress
      | none => []
    | matched => matched

def providerDashboard (providerId : String) : ProviderDashboard :=
  let workers := d.resolveProviderWorkers strLower providerId
  if workers.isEmpty then ⟨providerId, 0, 0, 0, 0, 0⟩
  else
    { providerId
      workerCount := workers.length
      totalEarned :=
        roundTo 4 (sumOf "provider_payment" (listSettlements d.settlements) workers)
      activeLeases := d.leases.rows.countP fun l =>
        l.2.workerId ∈ workers.map Prod.fst ∧ l.2.state = .active
      totalBlocksMined := blocksOf workers
      avgHashrate := roundTo 2 (hashrateOf workers / workers.length) }

/-! ## Snapshots -/

/-- The workers by their addresses in lower case; workers without one are left out. -/
def byAddress (workers : List (String × MinerRow)) : Table String (List (String × MinerRow)) :=
  workers.foldl (fun t w =>
    if w.2.ethAddress = "" then t
    else (t.insert (strLower w.2.ethAddress) []).modify (strLower w.2.ethAddress) (· ++ [w])) .empty

/-- `earnings_by_worker` -/
def earningsByWorker (settlements : List Row) : Table String ℚ :=
  settlements.foldl (fun t s =>
    (t.insert (s.text "worker_id") 0).modify (s.text "worker_id")
      (· + s.number "provider_payout")) .empty

/-- The loop of `create_snapshots`, for one address. -/
def snapshotAddress (intervalType : String) (now : ℚ) (earnings : Table String ℚ)
    (d : EarningsDb) (group : String × List (String × MinerRow)) : EarningsDb :=
  let (address, workers) := group
  let cumulative := blocksOf workers
  { d with
    snapshots := d.snapshots ++ [{
      ethAddress := address
      timestamp := now
      intervalType
      totalHashrate := hashrateOf (online now workers)
      onlineWorkers := (online now workers).length
      totalWorkers := workers.length
      blocksFound := cumulative - (d.lastBlocks.get address).getD 0
      cumulativeBlocks := cumulative
      earnings := (workers.map fun w => (earnings.get w.1).getD 0).sum }]
    lastBlocks := (d.lastBlocks.insert address 0).modify address fun _ => cumulative }

/-- `WalletSnapshotRepo.cleanup`: hourly rows for a week, daily ones for ninety days. -/
def cleanup (now : ℚ) (snapshots : List WalletSnapshot) : List WalletSnapshot :=
  (snapshots.filter fun s => ¬ (s.intervalType = "hourly" ∧ s.timestamp < now - 168 * 3600)).filter
    fun s => ¬ (s.intervalType = "daily" ∧ s.timestamp < now - 90 * 86400)

def createSnapshots (intervalType : String) (now : ℚ) : EarningsDb :=
  let d' := (byAddress strLower d.workers.rows).rows.foldl
    (snapshotAddress intervalType now (earningsByWorker (listSettlements d.settlements))) d
  { d' with snapshots := cleanup now d'.snapshots }

/-! ## Achievements -/

structure Achievements where
  peakHashrate : ℚ
  totalBlocks : Nat
  totalEarnings : ℚ
  firstSeen : Option ℚ

/-- `ORDER BY timestamp DESC LIMIT 1` -/
def latest (snapshots : List WalletSnapshot) : Option WalletSnapshot :=
  snapshots.foldl (fun best s =>
    if best.all fun b => b.timestamp ≤ s.timestamp then some s else best) none

/-- `WalletSnapshotRepo.get_achievements`; the addresses are compared with `NOCASE`. -/
def getAchievements (ethAddress : String) : Achievements :=
  let mine := d.snapshots.filter fun s => lower s.ethAddress = lower ethAddress
  { peakHashrate := ((mine.map (·.totalHashrate)).max?).getD 0
    totalBlocks := ((latest mine).map (·.cumulativeBlocks)).getD 0
    totalEarnings := roundTo 4 (mine.map (·.earnings)).sum
    firstSeen := ((mine.map (·.timestamp)).min?).filter fun t => t ≠ 0 }

end EarningsDb

/-! ## Runs -/

inductive EarningsEvent
  /-- a lease has one settlement at most -/
  | settle (leaseId : String) (s : Settlement)
  | createSnapshots (intervalType : String) (now : ℚ)

def EarningsDb.step (d : EarningsDb) : EarningsEvent → EarningsDb
  | .settle leaseId s => { d with settlements := d.settlements.insert leaseId s }
  | .createSnapshots intervalType now => d.createSnapshots strLower intervalType now

/-- Before the first snapshot. -/
def EarningsDb.start (workers : Table String MinerRow) (leases : Table String Lease)
    (accounts : Accounts) (settlements : Table String Settlement) : EarningsDb :=
  ⟨workers, leases, accounts, settlements, [], .empty⟩

def EarningsDb.run (d : EarningsDb) (events : List EarningsEvent) : EarningsDb :=
  events.foldl (EarningsDb.step strLower) d

/-- What the workers of an address were paid. -/
def EarningsDb.earned (d : EarningsDb) (address : String) : ℚ :=
  ((d.settlements.rows.filter fun s =>
    s.2.workerId ∈ (d.myWorkers strLower address).map Prod.fst).map fun s => s.2.providerPayout).sum

end Views

/-! ## Rounding keeps exact multiples -/

theorem roundHalfEven_int (n : ℤ) : roundHalfEven n = n := by
  have hfloor : (n : ℚ).floor = n := Rat.floor_intCast n
  unfold roundHalfEven
  dsimp only
  rw [hfloor, sub_self, if_pos (by norm_num)]

theorem roundTo_exact {q : ℚ} (h : IsExact q) : roundTo 4 q = q := by
  obtain ⟨n, rfl⟩ := h
  unfold roundTo
  rw [div_mul_cancel₀ _ (by norm_num), roundHalfEven_int]

theorem isExact_zero : IsExact 0 := ⟨0, by norm_num⟩

theorem isExact_sum {qs : List ℚ} (h : ∀ q ∈ qs, IsExact q) : IsExact qs.sum := by
  induction qs with
  | nil => exact isExact_zero
  | cons q qs ih =>
    rw [List.forall_mem_cons] at h
    obtain ⟨n, hn⟩ := h.1
    obtain ⟨m, hm⟩ := ih h.2
    refine ⟨n + m, ?_⟩
    rw [List.sum_cons, hn, hm, Int.cast_add, add_div]

/-! ## Live views -/

/-- No row has the key that the wallet's views read. -/
theorem number_provider_payout (leaseId : String) (s : Settlement) :
    (settlementRow leaseId s).number "provider_payout" = 0 := by
  rfl

theorem sum_eq_zero {qs : List ℚ} (h : ∀ q ∈ qs, q = 0) : qs.sum = 0 := by
  induction qs with
  | nil => rfl
  | cons q qs ih =>
    rw [List.forall_mem_cons] at h
    rw [List.sum_cons, h.1, ih h.2, add_zero]

theorem sumOf_provider_payout (settlements : Table String Settlement)
    (workers : List (String × MinerRow)) :
    sumOf "provider_payout" (listSettlements settlements) workers = 0 := by
  refine sum_eq_zero fun q hq => ?_
  obtain ⟨row, hrow, rfl⟩ := List.mem_map.1 hq
  obtain ⟨p, -, rfl⟩ := List.mem_map.1 (List.mem_of_mem_filter hrow)
  exact number_provider_payout p.1 p.2

theorem sumOf_provider_payment {settlements : Table String Settlement}
    (hexact : ∀ row ∈ settlements.rows, IsExact row.2.providerPayout)
    (workers : List (String × MinerRow)) :
    sumOf "provider_payment" (listSettlements settlements) workers =
      ((settlements.rows.filter fun s => s.2.workerId ∈ workers.map Prod.fst).map
        fun s => s.2.providerPayout).sum := by
  unfold sumOf listSettlements
  rw [List.filter_map, List.map_map, List.filter_reverse, List.map_reverse, List.sum_reverse]
  refine congrArg List.sum (List.map_congr_left fun row hrow => ?_)
  exact roundTo_exact (hexact row (List.mem_of_mem_filter hrow))

section

variable {strLower : String → String} {d : EarningsDb} {address : String}

theorem isExact_earned (hexact : ∀ row ∈ d.settlements.rows, IsExact row.2.providerPayout) :
    IsExact (d.earned strLower address) := by
  refine isExact_sum fun q hq => ?_
  obtain ⟨row, hrow, rfl⟩ := List.mem_map.1 hq
  exact hexact row (List.mem_of_mem_filter hrow)

theorem walletStats_totalEarnings (now : ℚ) :
    (d.walletStats strLower address now).totalEarnings = 0 := by
  change roundTo 4 (sumOf "provider_payout" (listSettlements d.settlements) _) = 0
  rw [sumOf_provider_payout, roundTo_exact isExact_zero]

/-- The provider's dashboard shows what was paid. -/
theorem providerDashboard_totalEarned
    (hexact : ∀ row ∈ d.settlements.rows, IsExact row.2.providerPayout)
    (h0x : ['0', 'x'].isPrefixOf address.toList = true) :
    (d.providerDashboard strLower address).totalEarned = d.earned strLower address := by
  unfold EarningsDb.providerDashboard EarningsDb.resolveProviderWorkers
  rw [if_pos h0x]
  dsimp only
  split_ifs with hnone
  · have hempty := List.isEmpty_iff.1 hnone
    unfold EarningsDb.earned
    rw [hempty]
    simp
  · rw [sumOf_provider_payment hexact]
    exact roundTo_exact (isExact_earned hexact)

end

/-! ## Snapshots -/

/-- Every value of the table is zero. -/
def AllZero (t : Table String ℚ) : Prop := ∀ k q, t.get k = some q → q = 0

theorem EarningsDb.allZero_earningsByWorker (settlements : Table String Settlement) :
    AllZero (earningsByWorker (listSettlements settlements)) := by
  have hrows : ∀ row ∈ listSettlements settlements, row.number "provider_payout" = 0 := by
    intro row hrow
    obtain ⟨p, -, rfl⟩ := List.mem_map.1 hrow
    exact number_provider_payout p.1 p.2
  have hfold : ∀ (rows : List Row) (t : Table String ℚ),
      (∀ row ∈ rows, row.number "provider_payout" = 0) → AllZero t →
      AllZero (rows.foldl (fun t s => (t.insert (s.text "worker_id") 0).modify (s.text "worker_id")
        (· + s.number "provider_payout")) t) := by
    intro rows
    induction rows with
    | nil => exact fun t _ ht => ht
    | cons row rows ih =>
      intro t hrows ht
      rw [List.forall_mem_cons] at hrows
      refine ih _ hrows.2 fun k q hget => ?_
      rw [Table.get_modify] at hget
      have hinsert : AllZero (t.insert (row.text "worker_id") 0) := by
        intro k' q' hget'
        rw [Table.get_insert] at hget'
        split_ifs at hget'
        · exact (Option.some.inj hget').symm
        · exact ht k' q' hget'
      split_ifs at hget
      · obtain ⟨q', hget', rfl⟩ := Option.map_eq_some_iff.1 hget
        rw [hrows.1, add_zero]
        exact hinsert k q' hget'
      · exact hinsert k q hget
  exact hfold _ _ hrows fun k q hget => by cases hget

/-- Every snapshot so far says that nothing was earned. -/
def EarningsDb.Worthless (d : EarningsDb) : Prop := ∀ s ∈ d.snapshots, s.earnings = 0

namespace EarningsDb

variable {strLower : String → String} {d : EarningsDb}

theorem Worthless.snapshotAddress (h : d.Worthless) (intervalType : String) (now : ℚ)
    {earnings : Table String ℚ} (hzero : AllZero earnings)
    (group : String × List (String × MinerRow)) :
    (snapshotAddress intervalType now earnings d group).Worthless := by
  intro s hs
  rcases List.mem_append.1 hs with hs | hs
  · exact h s hs
  · rw [List.mem_singleton.1 hs]
    refine sum_eq_zero fun q hq => ?_
    obtain ⟨w, -, rfl⟩ := List.mem_map.1 hq
    cases hget : earnings.get w.1 with
    | none => rfl
    | some q => exact hzero w.1 q hget

theorem Worthless.step (h : d.Worthless) (ev : EarningsEvent) : (d.step strLower ev).Worthless := by
  cases ev with
  | settle leaseId s => exact h
  | createSnapshots intervalType now =>
    have hfold : ∀ (groups : List (String × List (String × MinerRow))) (d' : EarningsDb),
        d'.Worthless → (groups.foldl (EarningsDb.snapshotAddress intervalType now
          (earningsByWorker (listSettlements d.settlements))) d').Worthless := by
      intro groups
      induction groups with
      | nil => exact fun d' hd' => hd'
      | cons group groups ih =>
        exact fun d' hd' => ih _ (hd'.snapshotAddress intervalType now
          (allZero_earningsByWorker d.settlements) group)
    intro s hs
    exact hfold _ d h s (List.mem_of_mem_filter (List.mem_of_mem_filter hs))

theorem Worthless.getAchievements (h : d.Worthless) (address : String) :
    (d.getAchievements address).totalEarnings = 0 := by
  change roundTo 4 ((d.snapshots.filter _).map _).sum = 0
  rw [sum_eq_zero fun q hq => ?_, roundTo_exact isExact_zero]
  obtain ⟨s, hs, rfl⟩ := List.mem_map.1 hq
  exact h s (List.mem_of_mem_filter hs)

end EarningsDb

/-! ## All views -/

/-- The wallet's live figure, the provider's dashboard and the achievements behind a pass all
show what the wallet was paid if and only if it was paid nothing in sum. -/
theorem earnings_agree_iff {strLower : String → String} {workers : Table String MinerRow}
    {leases : Table String Lease} {accounts : Accounts} {settlements : Table String Settlement}
    (events : List EarningsEvent) (intervalType : String) (now now' : ℚ) {address : String}
    {d : EarningsDb} (hd : d = (EarningsDb.start workers leases accounts settlements).run strLower
      (events ++ [.createSnapshots intervalType now]))
    (hexact : ∀ row ∈ d.settlements.rows, IsExact row.2.providerPayout)
    (h0x : ['0', 'x'].isPrefixOf address.toList = true) :
    ((d.walletStats strLower address now').totalEarnings = d.earned strLower address ∧
      (d.providerDashboard strLower address).totalEarned = d.earned strLower address ∧
      (d.getAchievements address).totalEarnings = d.earned strLower address) ↔
        d.earned strLower address = 0 := by
  have hworthless : d.Worthless := by
    have hrun := Run.trace (EarningsDb.step strLower)
      (.start workers leases accounts settlements)
      (events ++ [.createSnapshots intervalType now])
    change Run _ _ _ (EarningsDb.run strLower _ _) at hrun
    rw [← hd] at hrun
    refine (hrun.inv (I := EarningsDb.Worthless) (fun s ev s' hstep h => ?_) fun s hs => ?_).2.2
    · rw [hstep]
      exact h.step ev
    · cases hs
  rw [walletStats_totalEarnings, providerDashboard_totalEarned hexact h0x,
    hworthless.getAchievements]
  constructor
  · exact fun h => h.1.symm
  · exact fun h => ⟨h.symm, rfl, h.symm⟩

/-- A wallet's rig and another one's. -/
def twoRigs : Table String MinerRow :=
  ⟨[("rig", ⟨"0xAb", 1, 100, 0, 2⟩), ("other", ⟨"0xCd", 1, 100, 0, 0⟩)], by decide⟩

/-- A settlement of a lease of a rig, of a cost of 1. -/
def paidFor (workerId : String) : Settlement :=
  ⟨"consumer", workerId, 100, 0, 1, 95 / 100, 5 / 100⟩

def asciiLower (s : String) : String := String.ofList (lower s)

/-- Two settlements of a rig, with a pass after each. -/
def twicePaid (workerId : String) : EarningsDb :=
  (EarningsDb.start twoRigs .empty .empty .empty).run asciiLower
    ([.settle "a" (paidFor workerId), .createSnapshots "hourly" 3600,
      .settle "b" (paidFor workerId)] ++ [.createSnapshots "hourly" 7200])

theorem twicePaid_exact (workerId : String) :
    ∀ row ∈ (twicePaid workerId).settlements.rows, IsExact row.2.providerPayout := by
  have hrows : (twicePaid workerId).settlements.rows =
      [("a", paidFor workerId), ("b", paidFor workerId)] := rfl
  rw [hrows]
  intro row hrow
  have hpaid : IsExact (paidFor workerId).providerPayout := ⟨9500, by norm_num [paidFor]⟩
  simp only [List.mem_cons, List.not_mem_nil, or_false] at hrow
  rcases hrow with rfl | rfl
  · exact hpaid
  · exact hpaid

/-- The other rig is paid: the views of the wallet agree. -/
theorem earnings_agree_unpaid :
    let d := twicePaid "other"
    (d.walletStats asciiLower "0xab" 7200).totalEarnings = d.earned asciiLower "0xab" ∧
      (d.providerDashboard asciiLower "0xab").totalEarned = d.earned asciiLower "0xab" ∧
      (d.getAchievements "0xab").totalEarnings = d.earned asciiLower "0xab" :=
  (earnings_agree_iff _ "hourly" 7200 7200 rfl (twicePaid_exact "other") rfl).2 (by decide +kernel)

/-- The wallet's rig is paid 1.90: only the dashboard shows it. -/
theorem earnings_disagree :
    let d := twicePaid "rig"
    d.earned asciiLower "0xab" = 190 / 100 ∧
      (d.providerDashboard asciiLower "0xab").totalEarned = 190 / 100 ∧
      (d.walletStats asciiLower "0xab" 7200).totalEarnings = 0 ∧
      (d.getAchievements "0xab").totalEarnings = 0 := by
  decide +kernel

end TreeMiner.Server
