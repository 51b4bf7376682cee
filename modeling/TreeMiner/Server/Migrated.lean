import TreeMiner.Server.Migrate

/-! What the migrations do to a database of an older version. -/

namespace TreeMiner.Schema

open Lib.Sql

/-! ## Databases of older versions -/

/-- The columns that migrations add: the version they come with, the table, the name. -/
def addedColumns : List (Int × String × String) :=
  migrations.flatMap fun m => m.blocks.flatten.filterMap fun s =>
    match s with
    | .addColumn table c => some (m.below, table, c.name)
    | _ => none

/-- A migration after version `v` adds the column. -/
def addedAfter (v : Int) (table column : String) : Bool :=
  addedColumns.any fun a => decide (v < a.1) && a.2.1 == table && a.2.2 == column

/-- The columns a table has at version `v`. -/
def present (v : Int) (table : String) (columns : List Column) : List Column :=
  columns.filter fun c => !addedAfter v table c.name

/-- The columns of version `v`, where those that migrations added stand anywhere. -/
structure LaidOut (v : Int) (table : String) (columns laid : List Column) : Prop where
  perm : laid.Perm (present v table columns)
  base : present 0 table laid = present 0 table columns

/-- Tables that came with a later version as a whole. -/
def laterTables : List String := ["hashrate_snapshots", "wallet_snapshots"]

/-- A database as version `v` of the server left it. -/
structure OldDb (coerce : Affinity → Datum → Datum) (v : Int) (d : Db) : Prop where
  version : currentVersion d = v
  low : 1 ≤ v
  high : v ≤ 10
  there : ∀ st ∈ schemaTables, st.1 ∉ laterTables → ∃ t, d.tables st.1 = some t
  laidOut : ∀ name t, d.tables name = some t →
    ∃ columns, (name, columns) ∈ schemaTables ∧ LaidOut v name columns t.columns
  fits : ∀ name t, d.tables name = some t → ∀ row ∈ t.rows, Fits coerce t.columns row
  ids : ∀ name t, d.tables name = some t → (rowIds t.columns t.rows).Nodup
  indexes : ∀ i ∈ d.indexes, i ∈ schemaIndexes ∧ d.Admits i

/-- Every table has the columns of the schema, and every old row the values it had. -/
structure Preserved (d d' : Db) : Prop where
  columns : ∀ st ∈ schemaTables, ∃ t, d'.tables st.1 = some t ∧ ∀ c ∈ st.2, c ∈ t.columns
  rows : d.Extends d'

/-- No worker has two active leases. -/
def OneActive (d : Db) : Prop :=
  ∀ t, d.tables "leases" = some t → t.rows.Pairwise fun row row' =>
    t.read row "state" = some (.text "active") → t.read row' "state" = some (.text "active") →
      t.read row "worker_id" ≠ t.read row' "worker_id"

/-- Copying the blocks by position does no harm: their columns are in the schema's order, or
the copy is refused, or the rows read in the schema's order are the same rows. -/
def BlocksCopied (coerce : Affinity → Datum → Datum) (d : Db) : Prop :=
  ∀ t, d.tables "blocks" = some t →
    t.columns = blocksColumns ∨
    (∀ t', (Table.empty blocksColumns).insertAll coerce t.rows ≠ .ok t') ∨
    ∀ row ∈ t.rows, ∃ row' ∈ t.rows, ∀ name ∈ t.names,
      (Table.empty blocksColumns).read (relabel coerce blocksColumns row') name = t.read row name

/-! ## The schema script -/

theorem addedAfter_mono {v v' : Int} {table column : String} (h : v ≤ v')
    (hadded : addedAfter v' table column = true) : addedAfter v table column = true := by
  simp only [addedAfter, List.any_eq_true, Bool.and_eq_true, decide_eq_true_eq] at hadded ⊢
  obtain ⟨a, ha, ⟨hlt, htable⟩, hcolumn⟩ := hadded
  exact ⟨a, ha, ⟨by omega, htable⟩, hcolumn⟩

theorem present_mono {v v' : Int} {table : String} {columns : List Column} (h : v ≤ v') :
    present v table columns ⊆ present v' table columns := by
  intro c hc
  obtain ⟨hmem, hnot⟩ := List.mem_filter.1 hc
  refine List.mem_filter.2 ⟨hmem, ?_⟩
  rw [Bool.not_eq_true'] at hnot ⊢
  by_contra hadded
  rw [Bool.not_eq_false] at hadded
  rw [addedAfter_mono h hadded] at hnot
  cases hnot

theorem schemaTables_unique {name : String} {columns columns' : List Column}
    (h : (name, columns) ∈ schemaTables) (h' : (name, columns') ∈ schemaTables) :
    columns = columns' := by
  have hnodup : (schemaTables.map Prod.fst).Nodup := by decide
  have := List.inj_on_of_nodup_map hnodup h h' rfl
  exact congrArg Prod.snd this

theorem schemaTables_lookup {name : String} {columns : List Column}
    (h : (name, columns) ∈ schemaTables) : schemaTables.lookup name = some columns := by
  have hall : ∀ st ∈ schemaTables, schemaTables.lookup st.1 = some st.2 := by decide
  exact hall _ h

theorem schemaIndexes_unique {i j : Index} (hi : i ∈ schemaIndexes) (hj : j ∈ schemaIndexes)
    (h : i.name = j.name) : i = j := by
  have hnodup : (schemaIndexes.map Index.name).Nodup := by decide
  exact List.inj_on_of_nodup_map hnodup hi hj h

/-- The api key of an account came with version 5. -/
theorem addedAfter_apiKey (v : Int) : addedAfter v "accounts" "api_key" = decide (v < 5) := by
  have hcolumns : addedColumns = [(2, "blocks", "chain_verified"), (2, "blocks", "chain_block_id"),
      (3, "workers", "price_per_min"), (3, "workers", "min_duration_sec"),
      (3, "workers", "max_duration_sec"), (4, "workers", "total_online_sec"),
      (4, "workers", "last_online_at"), (5, "accounts", "api_key"),
      (6, "workers", "self_blocks_found")] := by decide
  simp [addedAfter, hcolumns]

/-- From version 6 on no migration adds a column. -/
theorem present_full {v : Int} (h : 6 ≤ v) (table : String) (columns : List Column) :
    present v table columns = columns := by
  have hbelow : ∀ a ∈ addedColumns, a.1 ≤ 6 := by decide
  refine List.filter_eq_self.2 fun c _ => ?_
  rw [Bool.not_eq_true', addedAfter, List.any_eq_false]
  intro a ha hadded
  simp only [Bool.and_eq_true, decide_eq_true_eq] at hadded
  have := hbelow a ha
  omega

section

variable {coerce : Affinity → Datum → Datum} {v : Int} {d : Db}

/-- What a table of an old database has at least. -/
theorem OldDb.mem_columns (h : OldDb coerce v d) {name : String} {t : Table}
    {columns : List Column} (ht : d.tables name = some t) (hst : (name, columns) ∈ schemaTables)
    {c : Column} : c ∈ t.columns ↔ c ∈ present v name columns := by
  obtain ⟨columns', hst', hlaid⟩ := h.laidOut name t ht
  rw [schemaTables_unique hst hst']
  exact hlaid.perm.mem_iff

/-- The tables after the schema script: the old ones, and new ones where they were missing. -/
theorem schemaSql_tables {d₁ : Db} (h : runScript coerce schemaSql d = .ok d₁) (name : String) :
    d₁.tables name = (d.tables name).or ((schemaTables.lookup name).map .empty) := by
  obtain ⟨d₀, hrun, -, htables⟩ := @runScript_createTables coerce schemaTables d
  rw [schemaSql, runScript_append_ok hrun] at h
  have hnodup : (schemaIndexes.map Index.name).Nodup := by decide
  rw [(runScript_createIndexes hnodup d₀).2 d₁ h]
  exact htables name

/-- A table after the script: an old one, or a new one with the columns of the schema. -/
theorem table_cases {d₀ : Db}
    (htables : ∀ name, d₀.tables name = (d.tables name).or ((schemaTables.lookup name).map .empty))
    {name : String} {columns : List Column} (hst : (name, columns) ∈ schemaTables) :
    (∃ t, d.tables name = some t ∧ d₀.tables name = some t) ∨
      d.tables name = none ∧ d₀.tables name = some (.empty columns) := by
  have hname := htables name
  rw [schemaTables_lookup hst] at hname
  cases ht : d.tables name with
  | some t => exact Or.inl ⟨t, rfl, by rw [hname, ht]; rfl⟩
  | none => exact Or.inr ⟨rfl, by rw [hname, ht]; rfl⟩

theorem mem_names {t : Table} {c : String} :
    c ∈ t.names ↔ ∃ column ∈ t.columns, column.name = c := by
  simp [Table.names]

/-- A table that came with no later version is after the script what it was before. -/
theorem OldDb.table_after (h : OldDb coerce v d) {d₀ : Db}
    (htables : ∀ name, d₀.tables name = (d.tables name).or ((schemaTables.lookup name).map .empty))
    {name : String} {columns : List Column} (hst : (name, columns) ∈ schemaTables)
    (hname : name ∉ laterTables) {t : Table} (ht : d₀.tables name = some t) :
    d.tables name = some t := by
  obtain ⟨t', ht'⟩ := h.there _ hst hname
  have hafter := htables name
  rw [ht', ht] at hafter
  rw [ht', hafter]
  rfl

/-- At version 5 and later every column an index is made from is there. -/
theorem OldDb.index_columns (h : OldDb coerce v d) (hv : 5 ≤ v) {d₀ : Db}
    (htables : ∀ name, d₀.tables name = (d.tables name).or ((schemaTables.lookup name).map .empty))
    {i : Index} (hi : i ∈ schemaIndexes) :
    ∃ t, d₀.tables i.table = some t ∧ ∀ c ∈ i.reads, c ∈ t.names := by
  have hall : ∀ i ∈ schemaIndexes, ∃ st ∈ schemaTables, st.1 = i.table ∧
      ∀ c ∈ i.reads, ∃ column ∈ present 5 st.1 st.2, column.name = c := by decide
  obtain ⟨⟨name, columns⟩, hst, rfl, hreads⟩ := hall i hi
  rcases table_cases htables hst with ⟨t, ht, ht₀⟩ | ⟨-, ht₀⟩
  · refine ⟨t, ht₀, fun c hc => mem_names.2 ?_⟩
    obtain ⟨column, hcolumn, hname⟩ := hreads c hc
    exact ⟨column, (h.mem_columns ht hst).2 (present_mono hv hcolumn), hname⟩
  · refine ⟨_, ht₀, fun c hc => mem_names.2 ?_⟩
    obtain ⟨column, hcolumn, hname⟩ := hreads c hc
    exact ⟨column, (List.mem_filter.1 hcolumn).1, hname⟩

/-- What a row that fits reads in a column that is not null. -/
theorem read_ne_null {t : Table} {row : List Datum} (hfits : Fits coerce t.columns row)
    {name : String} (hname : ∀ c ∈ t.columns, c.name = name → c.notNull = true) :
    t.read row name ≠ some .null := by
  intro hnull
  obtain ⟨as, bs, hzip, -⟩ := List.lookup_eq_some_iff.1 hnull
  have hmem : (name, Datum.null) ∈ t.names.zip row := by simp [hzip]
  rw [Table.names, List.zip_map_left, List.mem_map] at hmem
  obtain ⟨⟨c, x⟩, hcell, heq⟩ := hmem
  obtain ⟨rfl, rfl⟩ := Prod.mk.inj heq
  exact hfits.notNull _ hcell (hname c (List.of_mem_zip hcell).1 rfl) rfl

/-- What an active lease is indexed under. -/
theorem leasesActive_key {t : Table} {row : List Datum}
    (hworker : t.read row "worker_id" ≠ some .null) :
    leasesActiveIndex.key t row =
      if t.read row "state" = some (.text "active") then some [t.read row "worker_id"] else none := by
  simp [Index.key, leasesActiveIndex, hworker.symm]

/-- The unique index on the leases says that no worker has two that are active. -/
theorem leasesActive_holds {t : Table}
    (hworker : ∀ row ∈ t.rows, t.read row "worker_id" ≠ some .null) :
    leasesActiveIndex.Holds t ↔ t.rows.Pairwise fun row row' =>
      t.read row "state" = some (.text "active") → t.read row' "state" = some (.text "active") →
        t.read row "worker_id" ≠ t.read row' "worker_id" := by
  rw [Index.Holds, forall_prop_of_true (show leasesActiveIndex.unique = true from rfl)]
  apply List.Pairwise.iff_of_mem
  intro row row' hrow hrow'
  rw [leasesActive_key (hworker row hrow), leasesActive_key (hworker row' hrow')]
  by_cases hstate : t.read row "state" = some (.text "active")
  · by_cases hstate' : t.read row' "state" = some (.text "active")
    · simp [hstate, hstate']
    · simp [hstate, hstate']
  · simp [hstate]

theorem OldDb.leases_holds (h : OldDb coerce v d) {t : Table} (ht : d.tables "leases" = some t) :
    leasesActiveIndex.Holds t ↔ OneActive d := by
  have hst : ("leases", leasesColumns) ∈ schemaTables := by decide
  have hnotNull : ∀ c ∈ leasesColumns, c.name = "worker_id" → c.notNull = true := by decide
  rw [leasesActive_holds]
  · rw [OneActive]
    constructor
    · intro hpairs t' ht'
      rw [ht] at ht'
      cases ht'
      exact hpairs
    · intro hone
      exact hone t ht
  · intro row hrow
    refine read_ne_null (h.fits _ _ ht row hrow) fun c hc => hnotNull c ?_
    exact (List.mem_filter.1 ((h.mem_columns ht hst).1 hc)).1

/-- The schema script goes through on the databases from version 5 on in which no worker has
two active leases. -/
theorem schemaSql_iff (h : OldDb coerce v d) :
    (∃ d₁, runScript coerce schemaSql d = .ok d₁) ↔ 5 ≤ v ∧ OneActive d := by
  obtain ⟨d₀, hrun, hidx, htables⟩ := @runScript_createTables coerce schemaTables d
  have hnodup : (schemaIndexes.map Index.name).Nodup := by decide
  rw [schemaSql, runScript_append_ok hrun, (runScript_createIndexes hnodup d₀).1, hidx]
  constructor
  · intro hall
    -- an index that is there already says as much as one that can be made
    have hadmits : ∀ i ∈ schemaIndexes, ∃ t, d₀.tables i.table = some t ∧
        (∀ c ∈ i.reads, c ∈ t.names) ∧ i.Holds t := by
      intro i hi
      rcases hall i hi with ⟨j, hj, hname⟩ | hadmits
      · obtain ⟨hmem, t, ht, hrest⟩ := h.indexes j hj
        rw [schemaIndexes_unique hmem hi hname] at ht hrest
        exact ⟨t, by rw [htables, ht]; rfl, hrest⟩
      · exact hadmits
    constructor
    · have hst : ("accounts", accountsColumns) ∈ schemaTables := by decide
      obtain ⟨t, ht, hcols, -⟩ := hadmits apiKeyIndex (by decide)
      have ht := h.table_after htables hst (by decide) ht
      obtain ⟨c, hc, hname⟩ := mem_names.1 (hcols "api_key" (by decide))
      have hpresent := (List.mem_filter.1 ((h.mem_columns ht hst).1 hc)).2
      rw [hname, addedAfter_apiKey] at hpresent
      simpa using hpresent
    · have hst : ("leases", leasesColumns) ∈ schemaTables := by decide
      obtain ⟨t, ht, -, hholds⟩ := hadmits leasesActiveIndex (by decide)
      exact (h.leases_holds (h.table_after htables hst (by decide) ht)).1 hholds
  · rintro ⟨hv, hone⟩ i hi
    obtain ⟨t₀, ht₀, hcols⟩ := h.index_columns hv htables hi
    refine Or.inr ⟨t₀, ht₀, hcols, ?_⟩
    have hunique : ∀ i ∈ schemaIndexes, i.unique = true → i = leasesActiveIndex := by decide
    by_cases hi' : i.unique = true
    · rw [hunique i hi hi'] at ht₀ ⊢
      have hst : ("leases", leasesColumns) ∈ schemaTables := by decide
      exact (h.leases_holds (h.table_after htables hst (by decide) ht₀)).2 hone
    · exact fun hu => absurd hu hi'

/-! ## The migrations -/

theorem migrate_skipped {m : Migration} (h : m.below ≤ v) (d : Db) : migrate coerce v d m = d := by
  rw [migrate, if_neg (by omega)]

/-- Migrations that only make indexes and missing tables leave every table as it is. -/
theorem foldl_migrate_quiet {ms : List Migration}
    (hms : ∀ m ∈ ms, m.below ≤ v ∨ ∀ block ∈ m.blocks, ∀ s ∈ block, s.Quiet) (d : Db) :
    d.Keeps (ms.foldl (migrate coerce v) d) := by
  induction ms generalizing d with
  | nil => exact .refl d
  | cons m ms ih =>
    rw [List.foldl_cons]
    refine Db.Keeps.trans ?_ (ih (fun m hm => hms m (List.mem_cons_of_mem _ hm)) _)
    rcases hms m List.mem_cons_self with hbelow | hquiet
    · rw [migrate_skipped hbelow]
      exact .refl d
    · rw [migrate]
      split_ifs
      · clear hms ih
        generalize m.blocks = blocks at hquiet
        induction blocks generalizing d with
        | nil => exact .refl d
        | cons block blocks ih =>
          exact (attempt_quiet (hquiet block List.mem_cons_self) d).trans
            (ih _ fun b hb => hquiet b (List.mem_cons_of_mem _ hb))
      · exact .refl d

theorem foldl_migrate_indexedOn {tables : List String} {ms : List Migration}
    (hms : ∀ m ∈ ms, ∀ block ∈ m.blocks, ∀ s ∈ block, s.IndexesOn tables) {d : Db}
    (hd : d.IndexedOn tables) : (ms.foldl (migrate coerce v) d).IndexedOn tables := by
  induction ms generalizing d with
  | nil => exact hd
  | cons m ms ih =>
    rw [List.foldl_cons]
    apply ih fun m hm => hms m (List.mem_cons_of_mem _ hm)
    have hblocks := hms m List.mem_cons_self
    rw [migrate]
    split_ifs
    · generalize m.blocks = blocks at hblocks
      clear hms ih
      induction blocks generalizing d with
      | nil => exact hd
      | cons block blocks ih =>
        exact ih (attempt_indexedOn (hblocks block List.mem_cons_self) hd)
          fun b hb => hblocks b (List.mem_cons_of_mem _ hb)
    · exact hd

/-- The tables that have indexes. -/
def indexedTables : List String :=
  ["accounts", "workers", "leases", "blocks", "settlements", "transactions", "hashrate_snapshots",
    "wallet_snapshots"]

theorem OldDb.indexedOn (h : OldDb coerce v d) : d.IndexedOn indexedTables := by
  have hall : ∀ i ∈ schemaIndexes, i.table ∈ indexedTables := by decide
  exact fun i hi => hall i (h.indexes i hi).1

theorem schemaSql_indexedOn {d₁ : Db} (h : OldDb coerce v d)
    (hrun : runScript coerce schemaSql d = .ok d₁) : d₁.IndexedOn indexedTables := by
  have hall : ∀ s ∈ schemaSql, s.IndexesOn indexedTables := by decide
  exact runScript_indexedOn hall h.indexedOn hrun

theorem migrations_indexedOn {d₁ : Db} (h : d₁.IndexedOn indexedTables) :
    (migrations.foldl (migrate coerce v) d₁).IndexedOn indexedTables := by
  have hall : ∀ m ∈ migrations, ∀ block ∈ m.blocks, ∀ s ∈ block, s.IndexesOn indexedTables := by
    decide
  exact foldl_migrate_indexedOn hall h

/-- The version row goes in behind the rows that are there. -/
theorem insert_version (hnull : ∀ a x, coerce a x = .null ↔ x = .null) {d₂ : Db}
    (hd : d₂.IndexedOn indexedTables) {t : Table} (ht : d₂.tables "schema_version" = some t)
    (hcolumns : t.columns = versionColumns) (now : UInt64) :
    ∃ t', exec coerce d₂ (.insert "schema_version"
        [("version", .integer SCHEMA_VERSION), ("applied_at", .real now)]) =
          .ok (d₂.setTable "schema_version" (some t')) ∧
      t.Extends t' ∧ t'.columns = t.columns := by
  have hversion : storeCell coerce (rowIds t.columns t.rows) (required "version" .integer)
      (.integer SCHEMA_VERSION) = .ok (coerce .integer (.integer SCHEMA_VERSION)) := by
    simp [storeCell, required, hnull]
  have happlied : storeCell coerce (rowIds t.columns t.rows) (required "applied_at" .real)
      (.real now) = .ok (coerce .real (.real now)) := by
    simp [storeCell, required, hnull]
  have hrow : t.columns.map (fun c => (List.lookup c.name
      [("version", Datum.integer SCHEMA_VERSION), ("applied_at", .real now)]).getD c.default) =
      [.integer SCHEMA_VERSION, .real now] := by
    rw [hcolumns]
    rfl
  have hstore : storeRow coerce (rowIds t.columns t.rows) t.columns
      [.integer SCHEMA_VERSION, .real now] =
      .ok [coerce .integer (.integer SCHEMA_VERSION), coerce .real (.real now)] := by
    rw [hcolumns] at hversion happlied ⊢
    rw [versionColumns] at hversion happlied ⊢
    simp only [storeRow, hversion, happlied]
  obtain ⟨t', hinsert⟩ : ∃ t', t.insertAll coerce
      [[.integer SCHEMA_VERSION, .real now]] = .ok t' := by
    unfold Table.insertAll Table.insertRow
    split
    next e he =>
      split at he
      next e' he' =>
        rw [hstore] at he'
        cases he'
      next => cases he
    next t' _ => exact ⟨t', rfl⟩
  refine ⟨t', ?_, Table.extends_insertAll hinsert, (Table.insertAll_ok hinsert).1⟩
  unfold exec
  dsimp only
  rw [ht]
  dsimp only
  rw [if_neg (by simp [Table.names, hcolumns, versionColumns, required]), hrow]
  unfold Db.insertInto
  rw [ht]
  dsimp only
  rw [hinsert]
  dsimp only
  rw [if_pos]
  intro i hi htable
  have := hd i hi
  rw [htable] at this
  exact absurd this (by decide)

/-! ## Version 5 -/

theorem exec_copyAll_blocks {t : Table} (ht : d.tables "blocks" = some t)
    (hlen : t.columns.length = blocksColumns.length) (hd : d.IndexedOn indexedTables) :
    exec coerce (d.setTable "blocks_new" (some (.empty blocksColumns)))
      (.copyAll "blocks_new" "blocks") =
      match (Table.empty blocksColumns).insertAll coerce t.rows with
      | .error e => .error e
      | .ok t' => .ok ((d.setTable "blocks_new" (some (.empty blocksColumns))).setTable
          "blocks_new" (some t')) := by
  have hindexes : ∀ t' : Table, ∀ i ∈ (d.setTable "blocks_new"
      (some (.empty blocksColumns))).indexes, i.table = "blocks_new" → i.Holds t' := by
    intro t' i hi htable
    have := hd i hi
    rw [htable] at this
    exact absurd this (by decide)
  simp only [exec, Db.insertInto, Db.setTable_tables, if_true, ht,
    if_neg (show ("blocks" : String) ≠ "blocks_new" by decide)]
  rw [if_neg (show ¬ (Table.empty blocksColumns).columns.length ≠ t.columns.length from
    not_not.2 hlen.symm)]
  cases (Table.empty blocksColumns).insertAll coerce t.rows with
  | error e => rfl
  | ok t' =>
    dsimp only
    rw [if_pos (hindexes t')]

/-- The rebuild of the blocks: the copy takes their place, or is refused and they stay. -/
theorem attempt_blocksRebuild {t : Table} (hnew : d.tables "blocks_new" = none)
    (ht : d.tables "blocks" = some t) (hlen : t.columns.length = blocksColumns.length)
    (hd : d.IndexedOn indexedTables) :
    (∀ n u, n ≠ "blocks" → n ≠ "blocks_new" → d.tables n = some u →
      (attempt coerce blocksRebuild d).tables n = some u) ∧
    ((∃ t', (Table.empty blocksColumns).insertAll coerce t.rows = .ok t' ∧
        (attempt coerce blocksRebuild d).tables "blocks" = some t') ∨
      (∀ t', (Table.empty blocksColumns).insertAll coerce t.rows ≠ .ok t') ∧
        (attempt coerce blocksRebuild d).tables "blocks" = some t) := by
  have hcreate : exec coerce d (.createTable "blocks_new" blocksColumns) =
      .ok (d.setTable "blocks_new" (some (.empty blocksColumns))) := by
    unfold exec
    dsimp only
    rw [hnew]
  have hcopy := @exec_copyAll_blocks coerce d t ht hlen hd
  rw [blocksRebuild, attempt_ok hcreate]
  cases hall : (Table.empty blocksColumns).insertAll coerce t.rows with
  | error e =>
    rw [hall] at hcopy
    rw [attempt_error hcopy]
    refine ⟨fun n u _ hn hu => ?_, Or.inr ⟨fun t' => by simp, ?_⟩⟩
    · simpa [hn] using hu
    · simpa using ht
  | ok t' =>
    rw [hall] at hcopy
    rw [attempt_ok hcopy]
    generalize hdb : ((d.setTable "blocks_new" (some (.empty blocksColumns))).setTable
      "blocks_new" (some t')) = db
    have hblocks : db.tables "blocks" = some t := by
      rw [← hdb]
      simpa using ht
    have hnew' : db.tables "blocks_new" = some t' := by
      rw [← hdb]
      simp
    have hdrop : exec coerce db (.dropTable "blocks") = .ok { db.setTable "blocks" none with
        indexes := db.indexes.filter (·.table ≠ "blocks") } := by
      unfold exec
      dsimp only
      rw [hblocks]
    rw [attempt_ok hdrop]
    generalize hdc : ({ db.setTable "blocks" none with
      indexes := db.indexes.filter (·.table ≠ "blocks") } : Db) = dc
    have htc : ∀ n, dc.tables n = if n = "blocks" then none else db.tables n := by
      intro n
      rw [← hdc]
      rfl
    have hrename : ∃ dd, exec coerce dc (.renameTable "blocks_new" "blocks") = .ok dd ∧
        ∀ n, dd.tables n = if n = "blocks" then some t' else if n = "blocks_new" then none
          else dc.tables n := by
      unfold exec
      dsimp only
      rw [htc, htc, if_neg (by decide), if_pos rfl, hnew']
      exact ⟨_, rfl, fun n => rfl⟩
    obtain ⟨dd, hrename, htd⟩ := hrename
    rw [attempt_ok hrename]
    have hkeeps : dd.Keeps (attempt coerce [.createIndex blocksLeaseIndex,
        .createIndex blocksWorkerIndex] dd) := attempt_quiet (by decide) dd
    refine ⟨fun n u hn hn' hu => hkeeps n u ?_, Or.inl ⟨t', rfl, hkeeps _ _ ?_⟩⟩
    · rw [htd, if_neg hn, if_neg hn', htc, if_neg hn, ← hdb]
      simpa [hn'] using hu
    · rw [htd, if_pos rfl]

theorem OldDb.blocks_perm (h : OldDb coerce 5 d) {t : Table} (ht : d.tables "blocks" = some t) :
    t.columns.Perm blocksColumns := by
  obtain ⟨columns, hst, hlaid⟩ := h.laidOut _ t ht
  rw [schemaTables_unique hst (show ("blocks", blocksColumns) ∈ schemaTables by decide)] at hlaid
  have hpresent : present 5 "blocks" blocksColumns = blocksColumns := by decide
  rw [← hpresent]
  exact hlaid.perm

theorem OldDb.names_nodup (h : OldDb coerce 5 d) {t : Table} (ht : d.tables "blocks" = some t) :
    t.names.Nodup := by
  have hnodup : (blocksColumns.map Column.name).Nodup := by decide
  exact ((h.blocks_perm ht).map _).nodup_iff.2 hnodup

/-- Only the chain block id of a block is ever null. -/
theorem OldDb.null_place (h : OldDb coerce 5 d) {t : Table} (ht : d.tables "blocks" = some t)
    {row : List Datum} (hrow : row ∈ t.rows) {i : Nat} (hi : row[i]? = some .null) :
    t.columns[i]? = some chainBlockId := by
  have hlt : i < row.length := (List.getElem?_eq_some_iff.1 hi).1
  have hlt' : i < t.columns.length := by
    rw [← t.aligned row hrow]
    exact hlt
  have hcell : (t.columns[i], Datum.null) ∈ t.columns.zip row := by
    rw [List.mem_iff_getElem]
    refine ⟨i, by rw [List.length_zip]; exact lt_min hlt' hlt, ?_⟩
    rw [List.getElem_zip, (List.getElem?_eq_some_iff.1 hi).2]
  have hfits := h.fits _ t ht row hrow
  have honly : ∀ c ∈ blocksColumns, c.notNull = false → c.rowid = false → c = chainBlockId := by
    decide
  have hmem : t.columns[i] ∈ blocksColumns := (h.blocks_perm ht).mem_iff.1 (List.getElem_mem hlt')
  rw [List.getElem?_eq_getElem hlt', honly _ hmem]
  · by_contra hne
    exact hfits.notNull _ hcell (by simpa using hne) rfl
  · by_contra hne
    obtain ⟨n, hn⟩ := hfits.rowid _ hcell (by simpa using hne)
    cases hn

/-- If every block is found again among rows made by position, no block brings a null where
the id of the new table stands. -/
theorem OldDb.no_missing_id (hnull : ∀ a x, coerce a x = .null ↔ x = .null)
    (h : OldDb coerce 5 d) {t : Table} (ht : d.tables "blocks" = some t)
    (hfound : ∀ row ∈ t.rows, ∃ made, (∃ row' ∈ t.rows,
        made[10]? = row'[10]?.map (coerce chainBlockId.affinity)) ∧
      (Table.empty blocksColumns).read made "chain_block_id" = t.read row "chain_block_id") :
    ∀ row ∈ t.rows, ∀ cell ∈ blocksColumns.zip row, cell.1.rowid = true →
      coerce cell.1.affinity cell.2 ≠ .null := by
  intro row hrow cell hcell hrowid hcoerce
  rw [hnull] at hcoerce
  have hnodup := h.names_nodup ht
  obtain ⟨i, hi, rfl⟩ := List.mem_iff_getElem.1 hcell
  have hlen : (blocksColumns.zip row).length ≤ 12 := by
    rw [List.length_zip]
    exact min_le_left _ _
  have hzero : i = 0 := by
    have honly : ∀ i (hi : i < blocksColumns.length), blocksColumns[i].rowid = true → i = 0 := by
      decide
    rw [List.getElem_zip] at hrowid
    exact honly i (by rw [List.length_zip] at hi; omega) hrowid
  subst hzero
  rw [List.getElem_zip] at hcoerce
  have hfirst : row[0]? = some .null := by
    rw [List.getElem?_eq_getElem (by rw [List.length_zip] at hi; omega)]
    exact congrArg some hcoerce
  have hcol := h.null_place ht hrow hfirst
  obtain ⟨made, ⟨row', hrow', hmade⟩, hread⟩ := hfound row hrow
  have hmadeRead : (Table.empty blocksColumns).read made "chain_block_id" = made[10]? :=
    Table.read_of_getElem? (c := chainBlockId) (by decide) rfl
  have hrowRead : t.read row "chain_block_id" = row[0]? := Table.read_of_getElem? hnodup hcol
  rw [hmadeRead, hrowRead, hfirst, hmade] at hread
  obtain ⟨x, hx, hxnull⟩ := Option.map_eq_some_iff.1 hread
  rw [(hnull _ _).1 hxnull] at hx
  have hcol' := h.null_place ht hrow' hx
  obtain ⟨h0, h0'⟩ := List.getElem?_eq_some_iff.1 hcol
  obtain ⟨h10, h10'⟩ := List.getElem?_eq_some_iff.1 hcol'
  have := (List.Nodup.of_map _ hnodup).getElem_inj_iff.1 (h0'.trans h10'.symm)
  cases this

/-- A copied row is the old row read in the schema's order, if it brings an id. -/
theorem copied_rows {rows copies : List (List Datum)}
    (h : List.Forall₂ (CopyOf coerce blocksColumns) rows copies)
    (hid : ∀ row ∈ rows, ∀ cell ∈ blocksColumns.zip row, cell.1.rowid = true →
      coerce cell.1.affinity cell.2 ≠ .null) :
    copies = rows.map (relabel coerce blocksColumns) := by
  induction h with
  | nil => rfl
  | cons hcopy _ ih =>
    rw [List.map_cons, hcopy.eq_relabel (hid _ List.mem_cons_self),
      ih fun row hrow => hid row (List.mem_cons_of_mem _ hrow)]

theorem copy_source {rows copies : List (List Datum)}
    (h : List.Forall₂ (CopyOf coerce blocksColumns) rows copies) {copy : List Datum}
    (hcopy : copy ∈ copies) : ∃ row ∈ rows, CopyOf coerce blocksColumns row copy := by
  induction h with
  | nil => cases hcopy
  | cons hof _ ih =>
    rcases List.mem_cons.1 hcopy with rfl | hcopy
    · exact ⟨_, List.mem_cons_self, hof⟩
    · obtain ⟨row, hrow, hof⟩ := ih hcopy
      exact ⟨row, List.mem_cons_of_mem _ hrow, hof⟩

/-- What an accepted copy keeps of the blocks. -/
theorem OldDb.extends_copy_iff (hnull : ∀ a x, coerce a x = .null ↔ x = .null)
    (h : OldDb coerce 5 d) {t t' : Table} (ht : d.tables "blocks" = some t)
    (hcopy : (Table.empty blocksColumns).insertAll coerce t.rows = .ok t') :
    t.Extends t' ↔ t.columns = blocksColumns ∨
      ∀ row ∈ t.rows, ∃ row' ∈ t.rows, ∀ name ∈ t.names,
        (Table.empty blocksColumns).read (relabel coerce blocksColumns row') name =
          t.read row name := by
  obtain ⟨hcols, copies, hrows, hcopies⟩ := Table.insertAll_ok hcopy
  have hrows : t'.rows = copies := by simpa [Table.empty] using hrows
  have hread : t'.read = (Table.empty blocksColumns).read := by
    funext row name
    rw [Table.read, Table.read, Table.names, Table.names, hcols]
  have hperm := h.blocks_perm ht
  have hchain : "chain_block_id" ∈ t.names :=
    (hperm.map Column.name).mem_iff.2 (by decide)
  have hplace : blocksColumns[10]? = some chainBlockId := rfl
  constructor
  · intro hext
    refine Or.inr fun row hrow => ?_
    have hid := h.no_missing_id hnull ht fun row hrow => by
      obtain ⟨made, hmade, hsame⟩ := hext.rows row hrow
      rw [hrows] at hmade
      obtain ⟨row', hrow', hmade⟩ := copy_source hcopies hmade
      rw [hread] at hsame
      exact ⟨made, ⟨row', hrow', hmade.getElem? hplace rfl⟩, hsame _ hchain⟩
    rw [copied_rows hcopies hid] at hrows
    obtain ⟨made, hmade, hsame⟩ := hext.rows row hrow
    rw [hrows] at hmade
    obtain ⟨row', hrow', rfl⟩ := List.mem_map.1 hmade
    rw [hread] at hsame
    exact ⟨row', hrow', hsame⟩
  · intro hkeeps
    refine ⟨?_, ?_⟩
    · rw [Table.names, Table.names, hcols]
      exact fun name hname => (hperm.map Column.name).mem_iff.1 hname
    · rcases hkeeps with hsame | hclosed
      · -- the columns are in order: the rows go in as they are
        obtain ⟨t₁, hall, -, hrows₁⟩ := Table.insertAll_fits (t := .empty blocksColumns)
          (fun row hrow => by rw [t.aligned row hrow, hsame]; rfl)
          (fun row hrow => hsame ▸ h.fits _ t ht row hrow)
          (by simpa [Table.empty, hsame] using h.ids _ t ht)
        rw [hall] at hcopy
        cases hcopy
        intro row hrow
        refine ⟨row, by rw [hrows₁]; exact List.mem_append_right _ hrow, fun name _ => ?_⟩
        rw [Table.read, Table.read, Table.names, Table.names, hcols, hsame]
        rfl
      · have hid := h.no_missing_id hnull ht fun row hrow => by
          obtain ⟨row', hrow', hsame⟩ := hclosed row hrow
          refine ⟨_, ⟨row', hrow', ?_⟩, hsame _ hchain⟩
          rw [relabel, List.getElem?_zipWith, hplace]
          cases row'[10]? <;> rfl
        rw [copied_rows hcopies hid] at hrows
        intro row hrow
        obtain ⟨row', hrow', hsame⟩ := hclosed row hrow
        rw [hrows, hread]
        exact ⟨_, List.mem_map_of_mem hrow', hsame⟩

/-- From version 6 on the migrations leave every table as it is. -/
theorem migrations_late (hv : 6 ≤ v) (d : Db) :
    d.Keeps (migrations.foldl (migrate coerce v) d) := by
  have hall : ∀ m ∈ migrations, m.below ≤ 6 ∨ ∀ block ∈ m.blocks, ∀ s ∈ block, s.Quiet := by
    decide
  refine foldl_migrate_quiet (fun m hm => ?_) d
  exact (hall m hm).imp_left fun hbelow => Int.le_trans hbelow hv

/-- What the migrations of a version 5 database make of its tables: the workers get a column,
the copy of the blocks takes their place or is refused, and the rest stays. -/
structure Rebuilt (coerce : Affinity → Datum → Datum) (w b : Table) (d d₃ : Db) : Prop where
  rest : ∀ n u, n ≠ "workers" → n ≠ "blocks" → n ≠ "blocks_new" → d.tables n = some u →
    d₃.tables n = some u
  workers : d₃.tables "workers" = some (w.addColumn selfBlocksFound)
  blocks : (∃ b', (Table.empty blocksColumns).insertAll coerce b.rows = .ok b' ∧
      d₃.tables "blocks" = some b') ∨
    (∀ b', (Table.empty blocksColumns).insertAll coerce b.rows ≠ .ok b') ∧
      d₃.tables "blocks" = some b

theorem migrations_five {w b : Table} (hw : d.tables "workers" = some w)
    (hself : selfBlocksFound.name ∉ w.names) (hnew : d.tables "blocks_new" = none)
    (hb : d.tables "blocks" = some b) (hlen : b.columns.length = blocksColumns.length)
    (hd : d.IndexedOn indexedTables) :
    Rebuilt coerce w b d (migrations.foldl (migrate coerce 5) d) := by
  have hadd : exec coerce d (.addColumn "workers" selfBlocksFound) =
      .ok (d.setTable "workers" (some (w.addColumn selfBlocksFound))) := by
    unfold exec
    dsimp only
    rw [hw]
    dsimp only
    rw [if_neg hself, if_neg (by decide)]
  have hsplit : migrations.foldl (migrate coerce 5) d =
      lateMigrations.foldl (migrate coerce 5) (attempt coerce blocksRebuild
        (d.setTable "workers" (some (w.addColumn selfBlocksFound)))) := by
    have hrebuild : migrate coerce 5 d rebuildMigration = attempt coerce blocksRebuild
        (attempt coerce [.addColumn "workers" selfBlocksFound] d) := rfl
    rw [attempt_ok hadd] at hrebuild
    have hearly : earlyMigrations.foldl (migrate coerce 5) d = d := rfl
    rw [migrations, List.foldl_append, List.foldl_cons, hearly, hrebuild]
    rfl
  have hquiet : ∀ m ∈ lateMigrations, m.below ≤ 5 ∨ ∀ block ∈ m.blocks, ∀ s ∈ block, s.Quiet := by
    decide
  obtain ⟨hrest, hblocks⟩ := @attempt_blocksRebuild coerce
    (d.setTable "workers" (some (w.addColumn selfBlocksFound))) b (by simpa using hnew)
    (by simpa using hb) hlen hd
  rw [hsplit]
  generalize attempt coerce blocksRebuild
    (d.setTable "workers" (some (w.addColumn selfBlocksFound))) = d₂ at hrest hblocks
  have hkeeps := @foldl_migrate_quiet coerce 5 _ hquiet d₂
  refine ⟨fun n u hn hn' hn'' hu => hkeeps n u (hrest n u hn' hn'' ?_), ?_, ?_⟩
  · simpa [hn] using hu
  · exact hkeeps _ _ (hrest _ _ (by decide) (by decide) (by simp))
  · rcases hblocks with ⟨b', hcopy, hb'⟩ | ⟨hno, hb'⟩
    · exact Or.inl ⟨b', hcopy, hkeeps _ _ hb'⟩
    · exact Or.inr ⟨hno, hkeeps _ _ hb'⟩

/-! ## What is preserved -/

theorem versionColumns_old :
    ∀ c ∈ versionColumns, addedAfter 0 "schema_version" c.name = false := by
  decide

/-- No migration touches the columns of the version table, so they are in the schema's order. -/
theorem OldDb.version_columns (h : OldDb coerce v d) {t : Table}
    (ht : d.tables "schema_version" = some t) : t.columns = versionColumns := by
  have hst : ("schema_version", versionColumns) ∈ schemaTables := by decide
  obtain ⟨columns, hst', hlaid⟩ := h.laidOut _ t ht
  rw [schemaTables_unique hst' hst] at hlaid
  have hkeep : ∀ columns ⊆ versionColumns, present 0 "schema_version" columns = columns :=
    fun columns hsub => List.filter_eq_self.2 fun c hc => by
      rw [versionColumns_old c (hsub hc)]
      rfl
  have hbase := hlaid.base
  rw [hkeep _ (List.Subset.refl _), hkeep] at hbase
  · exact hbase
  · exact fun c hc => (List.mem_filter.1 ((h.mem_columns ht hst).1 hc)).1

/-- Once the script is through, a run of the migrations ends well. -/
theorem runMigrations_ok (hnull : ∀ a x, coerce a x = .null ↔ x = .null)
    (h : OldDb coerce v d) {d₁ : Db} (hrun : runScript coerce schemaSql d = .ok d₁)
    (hversion : ∀ t, d.tables "schema_version" = some t →
      (migrations.foldl (migrate coerce v) d₁).tables "schema_version" = some t) (now : UInt64) :
    ∃ t t', d.tables "schema_version" = some t ∧ t.Extends t' ∧ t'.columns = t.columns ∧
      runMigrations coerce (.real now) d =
        .ok ((migrations.foldl (migrate coerce v) d₁).setTable "schema_version" (some t')) := by
  obtain ⟨t, ht⟩ := h.there ("schema_version", versionColumns) (by decide) (by decide)
  obtain ⟨t', hexec, hext, hcols⟩ := insert_version hnull
    (migrations_indexedOn (v := v) (schemaSql_indexedOn h hrun)) (hversion t ht)
    (h.version_columns ht) now
  refine ⟨t, t', ht, hext, hcols, ?_⟩
  have hlow : v < SCHEMA_VERSION := by
    have := h.high
    simp only [SCHEMA_VERSION]
    omega
  unfold runMigrations
  dsimp only
  rw [h.version, if_pos hlow, hrun]
  exact hexec

/-- Migrating ends without an exception, and nothing is lost. -/
def Migrates (coerce : Affinity → Datum → Datum) (now : UInt64) (d : Db) : Prop :=
  ∃ d', runMigrations coerce (.real now) d = .ok d' ∧ Preserved d d'

/-- The script runs before anything else. -/
theorem script_of_runMigrations (h : OldDb coerce v d) {now : Datum} {d' : Db}
    (hrun : runMigrations coerce now d = .ok d') :
    ∃ d₁, runScript coerce schemaSql d = .ok d₁ := by
  have hlow : v < SCHEMA_VERSION := by
    have := h.high
    simp only [SCHEMA_VERSION]
    omega
  unfold runMigrations at hrun
  dsimp only at hrun
  rw [h.version, if_pos hlow] at hrun
  split at hrun
  next => cases hrun
  next d₁ hscript => exact ⟨d₁, hscript⟩

/-- From version 6 on every database that gets through the script is preserved. -/
theorem migrates_late (hnull : ∀ a x, coerce a x = .null ↔ x = .null) (h : OldDb coerce v d)
    (hv : 6 ≤ v) {d₁ : Db} (hrun : runScript coerce schemaSql d = .ok d₁) (now : UInt64) :
    Migrates coerce now d := by
  have htables := schemaSql_tables hrun
  have hkeeps₁ : d.Keeps d₁ := fun name t ht => by rw [htables, ht]; rfl
  have hkeeps := @migrations_late coerce v hv d₁
  obtain ⟨t, t', ht, hext, hcols, hok⟩ := runMigrations_ok hnull h hrun
    (fun t ht => hkeeps _ _ (hkeeps₁ _ _ ht)) now
  refine ⟨_, hok, ?_, ?_⟩
  · rintro ⟨name, columns⟩ hst
    rw [Db.setTable_tables]
    split_ifs with hname
    · dsimp only at hname
      subst hname
      refine ⟨t', rfl, fun c hc => ?_⟩
      rw [hcols, h.mem_columns ht hst, present_full hv]
      exact hc
    · rcases table_cases htables hst with ⟨u, hu, hu₁⟩ | ⟨-, hu₁⟩
      · refine ⟨u, hkeeps _ _ hu₁, fun c hc => ?_⟩
        rw [h.mem_columns hu hst, present_full hv]
        exact hc
      · exact ⟨_, hkeeps _ _ hu₁, fun c hc => hc⟩
  · intro name u hu
    rw [Db.setTable_tables]
    split_ifs with hname
    · subst hname
      rw [ht] at hu
      cases hu
      exact ⟨t', rfl, hext⟩
    · exact ⟨u, hkeeps _ _ (hkeeps₁ _ _ hu), .refl u⟩

theorem not_schema_blocksNew {columns : List Column} :
    ("blocks_new", columns) ∉ schemaTables := by
  have hno : ∀ st ∈ schemaTables, st.1 ≠ "blocks_new" := by decide
  exact fun hst => hno _ hst rfl

/-- At version 5 only the workers lack a column. -/
theorem OldDb.mem_columns_five (h : OldDb coerce 5 d) {name : String} {t : Table}
    {columns : List Column} (ht : d.tables name = some t) (hst : (name, columns) ∈ schemaTables)
    (hname : name ≠ "workers") {c : Column} (hc : c ∈ columns) : c ∈ t.columns := by
  have hfull : ∀ st ∈ schemaTables, st.1 ≠ "workers" → present 5 st.1 st.2 = st.2 := by
    decide
  rw [h.mem_columns ht hst, hfull _ hst hname]
  exact hc

/-- Every table has the columns of the schema after the migrations of a version 5 database. -/
theorem rebuilt_columns (h : OldDb coerce 5 d) {w b : Table} {d₁ d₃ : Db}
    (htables : ∀ name, d₁.tables name = (d.tables name).or ((schemaTables.lookup name).map .empty))
    (hw : d.tables "workers" = some w) (hb : d.tables "blocks" = some b)
    (hd₃ : Rebuilt coerce w b d₁ d₃) {name : String} {columns : List Column}
    (hst : (name, columns) ∈ schemaTables) :
    ∃ u, d₃.tables name = some u ∧ ∀ c ∈ columns, c ∈ u.columns := by
  have hworkers : ("workers", workersColumns) ∈ schemaTables := by decide
  have hblocks : ("blocks", blocksColumns) ∈ schemaTables := by decide
  by_cases hnw : name = "workers"
  · subst hnw
    rw [schemaTables_unique hst hworkers]
    refine ⟨_, hd₃.workers, fun c hc => ?_⟩
    have hsplit : ∀ c ∈ workersColumns,
        c ∈ present 5 "workers" workersColumns ∨ c = selfBlocksFound := by decide
    rcases hsplit c hc with hc | rfl
    · exact List.mem_append_left _ ((h.mem_columns hw hworkers).2 hc)
    · exact List.mem_append_right _ List.mem_cons_self
  · by_cases hnb : name = "blocks"
    · subst hnb
      rw [schemaTables_unique hst hblocks]
      rcases hd₃.blocks with ⟨b', hcopy, hb₃⟩ | ⟨-, hb₃⟩
      · exact ⟨b', hb₃, fun c hc => by rw [(Table.insertAll_ok hcopy).1]; exact hc⟩
      · exact ⟨b, hb₃, fun c hc => (h.blocks_perm hb).mem_iff.2 hc⟩
    · have hnn : name ≠ "blocks_new" := by
        rintro rfl
        exact not_schema_blocksNew hst
      rcases table_cases htables hst with ⟨u, hu, hu₁⟩ | ⟨-, hu₁⟩
      · exact ⟨u, hd₃.rest _ _ hnw hnb hnn hu₁, fun c hc => h.mem_columns_five hu hst hnw hc⟩
      · exact ⟨_, hd₃.rest _ _ hnw hnb hnn hu₁, fun c hc => hc⟩

/-- The rows of all tables are preserved if those of the blocks are. -/
theorem rebuilt_extends_iff {w b : Table} {d₁ d₃ : Db} (hkeeps : d.Keeps d₁)
    (hnew : d₁.tables "blocks_new" = none) (hw : d.tables "workers" = some w)
    (hb : d.tables "blocks" = some b) (hd₃ : Rebuilt coerce w b d₁ d₃) :
    d.Extends d₃ ↔ ∃ b', d₃.tables "blocks" = some b' ∧ b.Extends b' := by
  constructor
  · exact fun hext => hext _ _ hb
  · rintro ⟨b', hb', hbext⟩ name u hu
    by_cases hnw : name = "workers"
    · subst hnw
      rw [hw] at hu
      cases hu
      exact ⟨_, hd₃.workers, Table.extends_addColumn w selfBlocksFound⟩
    · by_cases hnb : name = "blocks"
      · subst hnb
        rw [hb] at hu
        cases hu
        exact ⟨b', hb', hbext⟩
      · have hnn : name ≠ "blocks_new" := by
          rintro rfl
          rw [hkeeps _ _ hu] at hnew
          cases hnew
        exact ⟨u, hd₃.rest _ _ hnw hnb hnn (hkeeps _ _ hu), .refl u⟩

/-- What the rebuild leaves of the blocks, in terms of the blocks there were. -/
theorem rebuilt_blocks_iff (hnull : ∀ a x, coerce a x = .null ↔ x = .null)
    (h : OldDb coerce 5 d) {w b : Table} {d₁ d₃ : Db} (hb : d.tables "blocks" = some b)
    (hd₃ : Rebuilt coerce w b d₁ d₃) :
    (∃ b', d₃.tables "blocks" = some b' ∧ b.Extends b') ↔ BlocksCopied coerce d := by
  rcases hd₃.blocks with ⟨b₃, hcopy, hb₃⟩ | ⟨hno, hb₃⟩
  · simp only [BlocksCopied, hb, hb₃, Option.some.injEq, exists_eq_left', forall_eq']
    rw [h.extends_copy_iff hnull hb hcopy]
    refine or_congr_right ⟨Or.inr, ?_⟩
    rintro (hno | hclosed)
    · exact absurd hcopy (hno b₃)
    · exact hclosed
  · refine ⟨fun _ u hu => ?_, fun _ => ⟨b, hb₃, .refl b⟩⟩
    rw [hb] at hu
    cases hu
    exact Or.inr (Or.inl hno)

/-- At version 5 a database that gets through the script is preserved if the copy of the
blocks does no harm. -/
theorem migrates_five_iff (hnull : ∀ a x, coerce a x = .null ↔ x = .null)
    (h : OldDb coerce 5 d) {d₁ : Db} (hrun : runScript coerce schemaSql d = .ok d₁)
    (now : UInt64) : Migrates coerce now d ↔ BlocksCopied coerce d := by
  have htables := schemaSql_tables hrun
  have hkeeps : d.Keeps d₁ := fun name t ht => by rw [htables, ht]; rfl
  have hworkers : ("workers", workersColumns) ∈ schemaTables := by decide
  obtain ⟨w, hw⟩ := h.there _ hworkers (by decide)
  obtain ⟨b, hb⟩ := h.there ("blocks", blocksColumns) (by decide) (by decide)
  have hself : selfBlocksFound.name ∉ w.names := by
    have hnone : ∀ c ∈ present 5 "workers" workersColumns, c.name ≠ selfBlocksFound.name := by
      decide
    intro hmem
    obtain ⟨c, hc, hname⟩ := mem_names.1 hmem
    exact hnone c ((h.mem_columns hw hworkers).1 hc) hname
  have hnew : d₁.tables "blocks_new" = none := by
    cases ht : d.tables "blocks_new" with
    | none =>
      rw [htables, ht]
      decide
    | some t =>
      obtain ⟨columns, hst, -⟩ := h.laidOut _ t ht
      exact absurd hst not_schema_blocksNew
  have hd₃ := @migrations_five coerce d₁ w b (hkeeps _ _ hw) hself hnew (hkeeps _ _ hb)
    (h.blocks_perm hb).length_eq (schemaSql_indexedOn h hrun)
  obtain ⟨t, t', ht, hext, hcols, hok⟩ := runMigrations_ok hnull h hrun
    (fun t ht => hd₃.rest _ _ (by decide) (by decide) (by decide) (hkeeps _ _ ht)) now
  rw [← rebuilt_blocks_iff hnull h hb hd₃, ← rebuilt_extends_iff hkeeps hnew hw hb hd₃]
  have ht₃ := hd₃.rest _ _ (by decide) (by decide) (by decide) (hkeeps _ _ ht)
  have hcolumns := fun name columns => @rebuilt_columns coerce d h w b d₁ _ htables hw hb hd₃
    name columns
  generalize migrations.foldl (migrate coerce 5) d₁ = d₃ at hok ht₃ hcolumns
  rw [Migrates, hok]
  -- the version row adds to a table the migrations left alone
  have hlast : d₃.Extends (d₃.setTable "schema_version" (some t')) := by
    intro name u hu
    rw [Db.setTable_tables]
    split_ifs with hname
    · subst hname
      rw [ht₃] at hu
      cases hu
      exact ⟨t', rfl, hext⟩
    · exact ⟨u, hu, .refl u⟩
  constructor
  · rintro ⟨d', hd', hpres⟩ name u hu
    cases hd'
    obtain ⟨u', hu', huext⟩ := hpres.rows name u hu
    rw [Db.setTable_tables] at hu'
    split_ifs at hu' with hname
    · subst hname
      rw [ht] at hu
      cases hu
      exact ⟨t, ht₃, .refl t⟩
    · exact ⟨u', hu', huext⟩
  · intro hrows
    refine ⟨_, rfl, ?_, hrows.trans hlast⟩
    rintro ⟨name, columns⟩ hst
    obtain ⟨u, hu, hall⟩ := hcolumns name columns hst
    rw [Db.setTable_tables]
    split_ifs with hname
    · dsimp only at hname
      subst hname
      rw [ht₃] at hu
      cases hu
      exact ⟨t', rfl, fun c hc => by rw [hcols]; exact hall c hc⟩
    · exact ⟨u, hu, hall⟩

/-- Migrating preserves a database of an older version if it is of version 5 or later, no
worker has two active leases, and, at version 5, the copy of the blocks does no harm. -/
theorem migrates_iff (hnull : ∀ a x, coerce a x = .null ↔ x = .null) (h : OldDb coerce v d)
    (now : UInt64) :
    Migrates coerce now d ↔ 5 ≤ v ∧ OneActive d ∧ (v = 5 → BlocksCopied coerce d) := by
  constructor
  · intro hmig
    have ⟨d', hrun, _⟩ := hmig
    obtain ⟨d₁, hscript⟩ := script_of_runMigrations h hrun
    obtain ⟨hv, hone⟩ := (schemaSql_iff h).1 ⟨d₁, hscript⟩
    refine ⟨hv, hone, ?_⟩
    rintro rfl
    exact (migrates_five_iff hnull h hscript now).1 hmig
  · rintro ⟨hv, hone, hblocks⟩
    obtain ⟨d₁, hscript⟩ := (schemaSql_iff h).2 ⟨hv, hone⟩
    rcases Int.lt_or_eq_of_le hv with hlt | rfl
    · exact migrates_late hnull h hlt hscript now
    · exact (migrates_five_iff hnull h hscript now).2 (hblocks rfl)

end

/-! ## Samples -/

/-- Affinity as far as the samples need it: an integer in a `REAL` column. -/
def sampleCoerce : Affinity → Datum → Datum
  | .real, .integer 77 => .real 0x4053400000000000
  | _, x => x

theorem sampleCoerce_null (a : Affinity) (x : Datum) : sampleCoerce a x = .null ↔ x = .null := by
  unfold sampleCoerce
  split <;> simp

def versionTable (v : Int) : Table :=
  ⟨versionColumns, [[.integer v, .real 0]], by simp [versionColumns]⟩

/-- A database of version `v` with nothing but its version and some blocks. -/
def sampleDb (v : Int) (blocks : Table) : Db where
  tables n :=
    if n = "schema_version" then some (versionTable v)
    else if n = "blocks" then some blocks
    else (schemaTables.lookup n).map fun columns => .empty (present v n columns)
  indexes := []

theorem sampleDb_old {v : Int} (hlow : 1 ≤ v) (hhigh : v ≤ 10) {blocks : Table}
    (hlaid : LaidOut v "blocks" blocksColumns blocks.columns)
    (hfits : ∀ row ∈ blocks.rows, Fits sampleCoerce blocks.columns row)
    (hids : (rowIds blocks.columns blocks.rows).Nodup) :
    OldDb sampleCoerce v (sampleDb v blocks) := by
  have hcases : ∀ name t, (sampleDb v blocks).tables name = some t →
      (name = "schema_version" ∧ t = versionTable v) ∨
      (name = "blocks" ∧ t = blocks) ∨
      ∃ columns, (name, columns) ∈ schemaTables ∧ t = .empty (present v name columns) := by
    intro name t ht
    simp only [sampleDb] at ht
    split_ifs at ht with hversion hblocks
    · exact Or.inl ⟨hversion, (Option.some.inj ht).symm⟩
    · exact Or.inr (Or.inl ⟨hblocks, (Option.some.inj ht).symm⟩)
    · obtain ⟨columns, hlookup, rfl⟩ := Option.map_eq_some_iff.1 ht
      obtain ⟨as, bs, happ, -⟩ := List.lookup_eq_some_iff.1 hlookup
      exact Or.inr (Or.inr ⟨columns, by simp [happ], rfl⟩)
  have hpresent : ∀ name columns, LaidOut v name columns (present v name columns) := by
    intro name columns
    refine ⟨.refl _, ?_⟩
    rw [present, present, present, List.filter_filter]
    refine List.filter_congr fun c _ => ?_
    cases hadded : addedAfter v name c.name with
    | false => simp
    | true =>
      rw [addedAfter_mono (by omega) hadded]
      rfl
  refine ⟨rfl, hlow, hhigh, ?_, ?_, ?_, ?_, by simp [sampleDb]⟩
  · intro st hst _
    simp only [sampleDb]
    split_ifs
    · exact ⟨_, rfl⟩
    · exact ⟨_, rfl⟩
    · exact ⟨_, by rw [@schemaTables_lookup st.1 st.2 hst]; rfl⟩
  · intro name t ht
    rcases hcases name t ht with ⟨rfl, rfl⟩ | ⟨rfl, rfl⟩ | ⟨columns, hst, rfl⟩
    · refine ⟨versionColumns, by decide, ?_⟩
      have hfull : present v "schema_version" versionColumns = versionColumns := by
        refine List.filter_eq_self.2 fun c hc => ?_
        rw [Bool.not_eq_true']
        by_contra hadded
        rw [Bool.not_eq_false] at hadded
        have := addedAfter_mono (show 0 ≤ v by omega) hadded
        rw [versionColumns_old c hc] at this
        cases this
      exact ⟨by rw [hfull]; exact .refl _, rfl⟩
    · exact ⟨blocksColumns, by decide, hlaid⟩
    · exact ⟨columns, hst, hpresent name columns⟩
  · intro name t ht row hrow
    rcases hcases name t ht with ⟨rfl, rfl⟩ | ⟨rfl, rfl⟩ | ⟨columns, hst, rfl⟩
    · rw [List.mem_singleton.1 hrow]
      refine ⟨?_, ?_, ?_⟩ <;> simp [versionTable, versionColumns, required, sampleCoerce]
    · exact hfits row hrow
    · cases hrow
  · intro name t ht
    rcases hcases name t ht with ⟨rfl, rfl⟩ | ⟨rfl, rfl⟩ | ⟨columns, hst, rfl⟩
    · simp [versionTable, versionColumns, required, rowIds]
    · exact hids
    · exact List.nodup_nil

/-- Blocks whose two later columns stand last, as `ADD COLUMN` left them. -/
def appendedBlocks : Table where
  columns := present 0 "blocks" blocksColumns ++ [chainVerified, chainBlockId]
  rows := [[.integer 1, .text "lease-1", .text "worker-1", .text "hash", .text "key",
    .text "0xabc", .integer 5, .text "10.0", .integer 1, .real 0x41D954FC40200000, .integer 1,
    .integer 77]]
  aligned := by decide

theorem appendedBlocks_fits :
    ∀ row ∈ appendedBlocks.rows, Fits sampleCoerce appendedBlocks.columns row := by
  have hid : ∀ row ∈ appendedBlocks.rows, ∀ cell ∈ appendedBlocks.columns.zip row,
      cell.1.rowid = true → cell.2 = .integer 1 := by decide
  have hstored : ∀ row ∈ appendedBlocks.rows, ∀ cell ∈ appendedBlocks.columns.zip row,
      sampleCoerce cell.1.affinity cell.2 = cell.2 := by decide
  have hnotNull : ∀ row ∈ appendedBlocks.rows, ∀ cell ∈ appendedBlocks.columns.zip row,
      cell.1.notNull = true → cell.2 ≠ .null := by decide
  intro row hrow
  exact ⟨hstored row hrow, hnotNull row hrow,
    fun cell hcell hrowid => ⟨1, hid row hrow cell hcell hrowid⟩⟩

theorem appendedBlocks_old : OldDb sampleCoerce 5 (sampleDb 5 appendedBlocks) :=
  sampleDb_old (by decide) (by decide) ⟨by decide, by decide⟩
    appendedBlocks_fits (by decide)

/-- No database below version 5 gets through the script, and the copy at version 5 shifts the
columns of the blocks. -/
theorem migrations_lose :
    (OldDb sampleCoerce 4 (sampleDb 4 (.empty blocksColumns)) ∧
      ¬ Migrates sampleCoerce 0 (sampleDb 4 (.empty blocksColumns))) ∧
    OldDb sampleCoerce 5 (sampleDb 5 appendedBlocks) ∧
      ¬ Migrates sampleCoerce 0 (sampleDb 5 appendedBlocks) := by
  have hempty : OldDb sampleCoerce 4 (sampleDb 4 (.empty blocksColumns)) :=
    sampleDb_old (by decide) (by decide) ⟨by decide, by decide⟩
      (fun _ hrow => by cases hrow) List.nodup_nil
  refine ⟨⟨hempty, ?_⟩, appendedBlocks_old, ?_⟩
  · rintro ⟨d', hrun, -⟩
    have := ((schemaSql_iff hempty).1 (script_of_runMigrations hempty hrun)).1
    omega
  · intro hmig
    have ⟨d', hrun, _⟩ := hmig
    obtain ⟨d₁, hscript⟩ := script_of_runMigrations appendedBlocks_old hrun
    rcases (migrates_five_iff sampleCoerce_null appendedBlocks_old hscript 0).1 hmig
      appendedBlocks rfl with hsame | hno | hclosed
    · exact absurd hsame (by decide)
    · obtain ⟨t', ht'⟩ : ∃ t', (Table.empty blocksColumns).insertAll sampleCoerce
          appendedBlocks.rows = .ok t' := ⟨_, rfl⟩
      exact hno t' ht'
    · have hread : ¬ ∀ row ∈ appendedBlocks.rows, ∃ row' ∈ appendedBlocks.rows,
          ∀ name ∈ appendedBlocks.names,
            (Table.empty blocksColumns).read (relabel sampleCoerce blocksColumns row') name =
              appendedBlocks.read row name := by decide
      exact hread hclosed

theorem migrates_iff_six :
    Migrates sampleCoerce 0 (sampleDb 6 appendedBlocks) ↔
      (5 : Int) ≤ 6 ∧ OneActive (sampleDb 6 appendedBlocks) ∧
        ((6 : Int) = 5 → BlocksCopied sampleCoerce (sampleDb 6 appendedBlocks)) := by
  have hold : OldDb sampleCoerce 6 (sampleDb 6 appendedBlocks) :=
    sampleDb_old (by decide) (by decide) ⟨by decide, by decide⟩
      appendedBlocks_fits (by decide)
  exact migrates_iff sampleCoerce_null hold 0

end TreeMiner.Schema
