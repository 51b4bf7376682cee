import TreeMiner.Lib.Sql

/-! The server's schema and its migrations, over databases of older versions. -/

namespace TreeMiner.Schema

open Lib.Sql

/-! ## The schema -/

def SCHEMA_VERSION : Int := 11

/-- `NOT NULL`, no default -/
def required (name : String) (affinity : Affinity) : Column := ⟨name, affinity, true, .null, false⟩

/-- `NOT NULL DEFAULT` -/
def defaulted (name : String) (affinity : Affinity) (default : Datum) : Column :=
  ⟨name, affinity, true, default, false⟩

def nullable (name : String) (affinity : Affinity) : Column := ⟨name, affinity, false, .null, false⟩

/-- `id INTEGER PRIMARY KEY AUTOINCREMENT` -/
def idColumn : Column := ⟨"id", .integer, false, .null, true⟩

def chainVerified : Column := defaulted "chain_verified" .integer (.integer 0)

def chainBlockId : Column := nullable "chain_block_id" .integer

/-- `REAL NOT NULL DEFAULT 0.60` -/
def pricePerMin : Column := defaulted "price_per_min" .real (.real 0x3FE3333333333333)

def minDurationSec : Column := defaulted "min_duration_sec" .integer (.integer 60)

def maxDurationSec : Column := defaulted "max_duration_sec" .integer (.integer 86400)

def totalOnlineSec : Column := defaulted "total_online_sec" .real (.real 0)

def lastOnlineAt : Column := nullable "last_online_at" .real

def apiKey : Column := defaulted "api_key" .text (.text "")

def selfBlocksFound : Column := defaulted "self_blocks_found" .integer (.integer 0)

def versionColumns : List Column := [required "version" .integer, required "applied_at" .real]

def accountsColumns : List Column :=
  [nullable "account_id" .text, required "role" .text, defaulted "eth_address" .text (.text ""),
    defaulted "balance" .real (.real 0), apiKey, required "created_at" .real,
    required "updated_at" .real]

def workersColumns : List Column :=
  [nullable "worker_id" .text, defaulted "eth_address" .text (.text ""),
    defaulted "gpu_count" .integer (.integer 0), defaulted "total_memory_gb" .integer (.integer 0),
    defaulted "gpus_json" .text (.text "[]"), defaulted "version" .text (.text ""),
    defaulted "state" .text (.text "AVAILABLE"), defaulted "hashrate" .real (.real 0),
    defaulted "active_gpus" .integer (.integer 0), required "last_heartbeat" .real,
    required "registered_at" .real, pricePerMin, minDurationSec, maxDurationSec, totalOnlineSec,
    lastOnlineAt, selfBlocksFound]

def leasesColumns : List Column :=
  [nullable "lease_id" .text, required "worker_id" .text, required "consumer_id" .text,
    required "consumer_address" .text, defaulted "prefix" .text (.text ""),
    required "duration_sec" .integer, defaulted "price_per_sec" .real (.real 0x3F847AE147AE147B),
    defaulted "state" .text (.text "active"), required "created_at" .real,
    nullable "ended_at" .real, defaulted "blocks_found" .integer (.integer 0),
    defaulted "total_hashrate_samples" .real (.real 0),
    defaulted "hashrate_count" .integer (.integer 0)]

def blocksColumns : List Column :=
  [idColumn, defaulted "lease_id" .text (.text ""), required "worker_id" .text,
    required "block_hash" .text, required "key" .text, defaulted "account" .text (.text ""),
    defaulted "attempts" .integer (.integer 0), defaulted "hashrate" .text (.text "0.0"),
    defaulted "prefix_valid" .integer (.integer 1), chainVerified, chainBlockId,
    required "created_at" .real]

def settlementsColumns : List Column :=
  [idColumn, required "lease_id" .text, required "consumer_id" .text, required "worker_id" .text,
    required "duration_sec" .real, defaulted "blocks_found" .integer (.integer 0),
    required "total_cost" .real, required "provider_payout" .real, required "platform_fee" .real,
    required "settled_at" .real]

def transactionsColumns : List Column :=
  [idColumn, required "account_id" .text, required "type" .text, required "amount" .real,
    defaulted "reference_id" .text (.text ""), required "created_at" .real]

def hashrateSnapshotsColumns : List Column :=
  [idColumn, required "worker_id" .text, required "hashrate" .real,
    defaulted "active_gpus" .integer (.integer 0), required "timestamp" .real]

def walletSnapshotsColumns : List Column :=
  [idColumn, required "eth_address" .text, required "timestamp" .real,
    defaulted "interval_type" .text (.text "hourly"), defaulted "total_hashrate" .real (.real 0),
    defaulted "online_workers" .integer (.integer 0),
    defaulted "total_workers" .integer (.integer 0),
    defaulted "blocks_found" .integer (.integer 0),
    defaulted "cumulative_blocks" .integer (.integer 0), defaulted "earnings" .real (.real 0)]

def schemaTables : List (String × List Column) :=
  [("schema_version", versionColumns), ("accounts", accountsColumns), ("workers", workersColumns),
    ("leases", leasesColumns), ("blocks", blocksColumns), ("settlements", settlementsColumns),
    ("transactions", transactionsColumns), ("hashrate_snapshots", hashrateSnapshotsColumns),
    ("wallet_snapshots", walletSnapshotsColumns)]

def plainIndex (name table : String) (columns : List String) : Index :=
  ⟨name, table, columns, none, false⟩

def blocksLeaseIndex : Index := plainIndex "idx_blocks_lease" "blocks" ["lease_id"]

def blocksWorkerIndex : Index := plainIndex "idx_blocks_worker" "blocks" ["worker_id"]

def apiKeyIndex : Index := plainIndex "idx_accounts_api_key" "accounts" ["api_key"]

def ethAddressIndex : Index := plainIndex "idx_accounts_eth_address" "accounts" ["eth_address"]

def blocksCreatedIndex : Index := plainIndex "idx_blocks_created" "blocks" ["created_at"]

/-- `WHERE lease_id = ''` -/
def blocksSelfIndex : Index :=
  ⟨"idx_blocks_self", "blocks", ["lease_id"], some ("lease_id", .text ""), false⟩

def snapshotsWorkerIndex : Index :=
  plainIndex "idx_snapshots_worker_ts" "hashrate_snapshots" ["worker_id", "timestamp"]

def snapshotsIndex : Index := plainIndex "idx_snapshots_ts" "hashrate_snapshots" ["timestamp"]

def workersStateIndex : Index := plainIndex "idx_workers_state" "workers" ["state"]

/-- `UNIQUE … WHERE state = 'active'` -/
def leasesActiveIndex : Index :=
  ⟨"idx_leases_worker_active", "leases", ["worker_id"], some ("state", .text "active"), true⟩

def schemaIndexes : List Index :=
  [plainIndex "idx_leases_state" "leases" ["state"],
    plainIndex "idx_leases_worker" "leases" ["worker_id"],
    plainIndex "idx_leases_consumer" "leases" ["consumer_id"], blocksLeaseIndex, blocksWorkerIndex,
    plainIndex "idx_transactions_account" "transactions" ["account_id"],
    plainIndex "idx_settlements_lease" "settlements" ["lease_id"], apiKeyIndex, ethAddressIndex,
    blocksCreatedIndex, blocksSelfIndex, snapshotsWorkerIndex, snapshotsIndex,
    plainIndex "idx_wallet_snapshots_addr_time" "wallet_snapshots" ["eth_address", "timestamp"],
    plainIndex "idx_wallet_snapshots_addr_type" "wallet_snapshots" ["eth_address", "interval_type"],
    workersStateIndex, leasesActiveIndex]

/-- `SCHEMA_SQL` -/
def schemaSql : List Stmt :=
  schemaTables.map (fun t => .createTable t.1 t.2) ++ schemaIndexes.map .createIndex

/-! ## The migrations -/

/-- What runs below a version: blocks whose failures are swallowed. -/
structure Migration where
  below : Int
  blocks : List (List Stmt)

def blocksRebuild : List Stmt :=
  [.createTable "blocks_new" blocksColumns, .copyAll "blocks_new" "blocks", .dropTable "blocks",
    .renameTable "blocks_new" "blocks", .createIndex blocksLeaseIndex,
    .createIndex blocksWorkerIndex]

def earlyMigrations : List Migration :=
  [⟨2, [[.addColumn "blocks" chainVerified], [.addColumn "blocks" chainBlockId]]⟩,
    ⟨3, [[.addColumn "workers" pricePerMin], [.addColumn "workers" minDurationSec],
      [.addColumn "workers" maxDurationSec]]⟩,
    ⟨4, [[.addColumn "workers" totalOnlineSec], [.addColumn "workers" lastOnlineAt]]⟩,
    ⟨5, [[.addColumn "accounts" apiKey], [.createIndex apiKeyIndex]]⟩]

def rebuildMigration : Migration := ⟨6, [[.addColumn "workers" selfBlocksFound], blocksRebuild]⟩

def lateMigrations : List Migration :=
  [⟨7, [[.createIndex blocksCreatedIndex], [.createIndex blocksSelfIndex]]⟩,
    ⟨8, [[.createTable "hashrate_snapshots" hashrateSnapshotsColumns,
      .createIndex snapshotsWorkerIndex, .createIndex snapshotsIndex]]⟩,
    ⟨9, [[.createIndex ethAddressIndex]]⟩,
    ⟨11, [[.createIndex workersStateIndex], [.createIndex leasesActiveIndex]]⟩]

def migrations : List Migration := earlyMigrations ++ rebuildMigration :: lateMigrations

section

variable (coerce : Affinity → Datum → Datum)

/-- `SELECT MAX(version) FROM schema_version`; 0 where that fails or the table is empty. -/
def currentVersion (d : Db) : Int :=
  match d.tables "schema_version" with
  | none => 0
  | some t =>
    match t.rows.filterMap fun row => (t.read row "version").bind Datum.toInt? with
    | [] => 0
    | v :: versions => versions.foldl max v

def migrate (current : Int) (d : Db) (m : Migration) : Db :=
  if current < m.below then m.blocks.foldl (fun d block => attempt coerce block d) d else d

def runMigrations (now : Datum) (d : Db) : Except Error Db :=
  let current := currentVersion d
  if current < SCHEMA_VERSION then
    match runScript coerce schemaSql d with
    | .error e => .error e
    | .ok d =>
      exec coerce (migrations.foldl (migrate coerce current) d)
        (.insert "schema_version" [("version", .integer SCHEMA_VERSION), ("applied_at", now)])
  else .ok d

end

end TreeMiner.Schema
